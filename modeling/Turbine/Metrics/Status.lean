import Turbine.Base.JsonWeight
import Turbine.Metrics.Collector

/-!
# Turbine.Metrics.Status

`status_json`: the JSON document of the dashboard.  The paths of the requests are written
between quotes as they are.

* `weigh_endpointsText`: whatever the paths are, the strings of the document cannot be
  longer than what was written for them;
* `statusJson_reports_iff`: so the document reports the requests iff no path has to be
  escaped and no counter has wrapped around.
-/

namespace Turbine.Metrics

open Base (Float64)
open Base.JsonText

/-! ## the document -/

/-- Microseconds in milliseconds. -/
def toMs (us : UInt64) : Float64 := (Float64.ofNat us.toNat).div (.ofNat 1000)

/-- The percentile of a literal with two digits. -/
def LatencyHistogram.percentileOf (h : LatencyHistogram) (hundredths : Nat) : UInt64 :=
  h.percentile (floatRank (Float64.round false hundredths 100 0))

/-- What is read of an entry. -/
structure Row where
  path : String
  reqs : UInt64
  errs : UInt64
  mean : UInt64
  p99 : UInt64

def Row.ofEntry (entry : String × EndpointMetrics) : Row where
  path := entry.1
  reqs := entry.2.requests
  errs := entry.2.errors
  mean := entry.2.latency.meanUs
  p99 := entry.2.latency.percentileOf 99

/-- `"key": value` on a line of its own, and what ends the line. -/
def field (indent key value ending : String) : String :=
  indent ++ "\"" ++ key ++ "\": " ++ value ++ ending

/-- The lines before the array of the endpoints, in the order they are pushed.  The clock
is read once for the uptime and once for the rate. -/
def MetricsCollector.statusHead (m : MetricsCollector) (workers : Nat)
    (uptimeSecs rateSecs : UInt64) : List String :=
  ["\x7b\n", field "  " "uptime_seconds" (toString uptimeSecs.toNat) ",\n",
   field "  " "workers" (toString workers) ",\n",
   field "  " "total_requests" (toString m.totalRequests.toNat) ",\n",
   field "  " "total_errors" (toString m.totalErrors.toNat) ",\n",
   field "  " "requests_per_second" ((m.rps rateSecs).fixed 1) ",\n",
   field "  " "bytes_out" (toString m.totalBytesOut.toNat) ",\n", "  \"latency_ms\": \x7b\n",
   field "    " "mean" ((toMs m.latency.meanUs).fixed 2) ",\n",
   field "    " "p50" ((toMs (m.latency.percentileOf 50)).fixed 2) ",\n",
   field "    " "p90" ((toMs (m.latency.percentileOf 90)).fixed 2) ",\n",
   field "    " "p99" ((toMs (m.latency.percentileOf 99)).fixed 2) "\n", "  \x7d,\n",
   "  \"cache\": \x7b\n", field "    " "hits" (toString m.cacheHits.toNat) ",\n",
   field "    " "misses" (toString m.cacheMisses.toNat) ",\n",
   field "    " "hit_ratio" (m.cacheHitRatio.fixed 3) "\n", "  \x7d,\n", "  \"security\": \x7b\n",
   field "    " "blocks" (toString m.securityBlocks.toNat) "\n", "  \x7d,\n",
   "  \"status_codes\": \x7b\n", field "    " "2xx" (toString m.total2xx.toNat) ",\n",
   field "    " "3xx" (toString m.total3xx.toNat) ",\n",
   field "    " "4xx" (toString m.total4xx.toNat) ",\n",
   field "    " "5xx" (toString m.total5xx.toNat) "\n", "  \x7d,\n", "  \"endpoints\": [\n"]

/-- The lines of an entry behind its path. -/
def Row.lines (row : Row) : List String :=
  [field "      " "requests" (toString row.reqs.toNat) ",\n",
   field "      " "errors" (toString row.errs.toNat) ",\n",
   field "      " "mean_ms" ((toMs row.mean).fixed 2) ",\n",
   field "      " "p99_ms" ((toMs row.p99).fixed 2) "\n", "    \x7d"]

/-- The entries, with a comma behind each but the last. -/
def endpointsText : List Row → String
  | [] => ""
  | row :: rows =>
    "    \x7b\n      \"path\": \"" ++ (row.path ++ ("\",\n" ++ (String.join row.lines ++
      ((if rows.isEmpty then "\n" else ",\n") ++ endpointsText rows))))

/-- The entries by the number of requests, the largest first; the sort is stable. -/
def sortRows (rows : List Row) : List Row := rows.mergeSort fun a b => b.reqs ≤ a.reqs

/-- `status_json`.  The map is read in any order. -/
def MetricsCollector.statusJson (m : MetricsCollector) (workers : Nat)
    (uptimeSecs rateSecs : UInt64) (entries : List (String × EndpointMetrics)) : String :=
  String.join (m.statusHead workers uptimeSecs rateSecs) ++
    (endpointsText (sortRows (entries.map Row.ofEntry)) ++ "  ]\n\x7d\n")

/-! ## numbers -/

/-- The number is not negative, infinite or not a number. -/
def IsFinite (x : Float64) : Prop := ∃ m e, x = .finite false m e

theorem isFinite_toMs (us : UInt64) : IsFinite (toMs us) :=
  Float64.div_finite us.toNat_lt (by decide) (by decide)

theorem isFinite_ofNat (n : UInt64) : IsFinite (.ofNat n.toNat) := by
  obtain ⟨m, e, heq, -⟩ := Float64.ofNat_finite n.toNat_lt
  exact ⟨m, e, heq⟩

theorem isFinite_div (a : UInt64) {b : UInt64} (hb : b ≠ 0) :
    IsFinite ((Float64.ofNat a.toNat).div (.ofNat b.toNat)) :=
  Float64.div_finite a.toNat_lt b.toNat_lt fun hzero => hb (UInt64.toNat_inj.1 hzero)

theorem isFinite_rps (m : MetricsCollector) (secs : UInt64) : IsFinite (m.rps secs) := by
  rw [MetricsCollector.rps]
  split
  case isTrue => exact isFinite_ofNat m.totalRequests
  case isFalse hsecs => exact isFinite_div m.totalRequests hsecs

theorem isFinite_cacheHitRatio (m : MetricsCollector) : IsFinite m.cacheHitRatio := by
  simp only [MetricsCollector.cacheHitRatio]
  split
  case isTrue => exact isFinite_ofNat 0
  case isFalse htotal => exact isFinite_div m.cacheHits htotal

theorem numeral_fixed {x : Float64} (h : IsFinite x) (decimals : Nat) :
    Numeral (x.fixed decimals).toList := by
  obtain ⟨m, e, rfl⟩ := h
  obtain ⟨n, digits, hne, hdigits, htext⟩ := Float64.fixed_finite decimals m e
  rw [htext]
  exact numeral_fraction n hne hdigits

/-! ## lines -/

/-- The key of a line as it stands in the document. -/
def bareKey (key : String) : Bool := key.toList.all fun c => Bare c

theorem prints_field {indent key value ending : String} {ts : List Token}
    (hindent : indent.toList.all isBlank = true) (hkey : bareKey key = true)
    (hvalue : Numeral value.toList) {c : Char} {cs : List Char} (hending : ending.toList = c :: cs)
    (hc : isWordChar c = false) (h : Prints ending ts) :
    Prints (field indent key value ending)
      (.str key.toList :: .colon :: .num value.toList :: ts) := by
  have hbare : ∀ c ∈ key.toList, Bare c := by simpa [bareKey] using hkey
  have hcolon : Reads [':', ' '] [.colon] := by decide
  have hquoted := (reads_blank hindent).append ((reads_string hbare).append hcolon)
  rw [Prints, hending] at h
  have hall := hquoted.append (reads_number hvalue hc h)
  simpa [Prints, field, hending] using hall

theorem prints_comma (key : String) (hkey : bareKey key = true) {indent value : String}
    (hindent : indent.toList.all isBlank = true) (hvalue : Numeral value.toList) :
    Prints (field indent key value ",\n")
      [.str key.toList, .colon, .num value.toList, .comma] := by
  have hending : ",\n".toList = [',', '\n'] := by decide
  exact prints_field hindent hkey hvalue hending (by decide) (by decide)

theorem prints_last (key : String) (hkey : bareKey key = true) {indent value : String}
    (hindent : indent.toList.all isBlank = true) (hvalue : Numeral value.toList) :
    Prints (field indent key value "\n") [.str key.toList, .colon, .num value.toList] := by
  have hending : "\n".toList = ['\n'] := by decide
  exact prints_field hindent hkey hvalue hending (by decide) (by decide)

/-! ## the value of the document -/

/-- A key with a number. -/
def member (key value : String) : List Char × Value := (key.toList, .num value.toList)

def MetricsCollector.headMembers (m : MetricsCollector) (workers : Nat)
    (uptimeSecs rateSecs : UInt64) : List (List Char × Value) :=
  [member "uptime_seconds" (toString uptimeSecs.toNat), member "workers" (toString workers),
   member "total_requests" (toString m.totalRequests.toNat),
   member "total_errors" (toString m.totalErrors.toNat),
   member "requests_per_second" ((m.rps rateSecs).fixed 1),
   member "bytes_out" (toString m.totalBytesOut.toNat), ("latency_ms".toList, .obj
     [member "mean" ((toMs m.latency.meanUs).fixed 2),
      member "p50" ((toMs (m.latency.percentileOf 50)).fixed 2),
      member "p90" ((toMs (m.latency.percentileOf 90)).fixed 2),
      member "p99" ((toMs (m.latency.percentileOf 99)).fixed 2)]), ("cache".toList, .obj
     [member "hits" (toString m.cacheHits.toNat), member "misses" (toString m.cacheMisses.toNat),
      member "hit_ratio" (m.cacheHitRatio.fixed 3)]),
   ("security".toList, .obj [member "blocks" (toString m.securityBlocks.toNat)]),
   ("status_codes".toList, .obj
     [member "2xx" (toString m.total2xx.toNat), member "3xx" (toString m.total3xx.toNat),
      member "4xx" (toString m.total4xx.toNat), member "5xx" (toString m.total5xx.toNat)])]

def Row.value (row : Row) : Value :=
  .obj [("path".toList, .str row.path.toList), member "requests" (toString row.reqs.toNat),
    member "errors" (toString row.errs.toNat), member "mean_ms" ((toMs row.mean).fixed 2),
    member "p99_ms" ((toMs row.p99).fixed 2)]

def MetricsCollector.statusValue (m : MetricsCollector) (workers : Nat)
    (uptimeSecs rateSecs : UInt64) (rows : List Row) : Value :=
  .obj (m.headMembers workers uptimeSecs rateSecs ++
    [("endpoints".toList, .arr (rows.map Row.value))])

/-- The tokens in front of the entries. -/
def MetricsCollector.headTokens (m : MetricsCollector) (workers : Nat)
    (uptimeSecs rateSecs : UInt64) : List Token :=
  .lbrace :: (Value.memberTokens true (m.headMembers workers uptimeSecs rateSecs) ++
    [.comma, .str "endpoints".toList, .colon, .lbracket])

theorem prints_head (m : MetricsCollector) (workers : Nat) (uptimeSecs rateSecs : UInt64) :
    Prints (String.join (m.statusHead workers uptimeSecs rateSecs))
      (m.headTokens workers uptimeSecs rateSecs) := by
  have htwo : "  ".toList.all isBlank = true := by decide
  have hfour : "    ".toList.all isBlank = true := by decide
  have hopen : Prints "\x7b\n" [.lbrace] := by decide
  have hclose : Prints "  \x7d,\n" [.rbrace, .comma] := by decide
  have hlatency : Prints "  \"latency_ms\": \x7b\n"
      [.str "latency_ms".toList, .colon, .lbrace] := by
    decide +kernel
  have hcache : Prints "  \"cache\": \x7b\n" [.str "cache".toList, .colon, .lbrace] := by
    decide +kernel
  have hsecurity : Prints "  \"security\": \x7b\n" [.str "security".toList, .colon, .lbrace] := by
    decide +kernel
  have hcodes : Prints "  \"status_codes\": \x7b\n"
      [.str "status_codes".toList, .colon, .lbrace] := by
    decide +kernel
  have hendpoints : Prints "  \"endpoints\": [\n" [.str "endpoints".toList, .colon, .lbracket] := by
    decide +kernel
  have hlines : List.Forall₂ Prints (m.statusHead workers uptimeSecs rateSecs) _ :=
    .cons hopen <|
    .cons (prints_comma "uptime_seconds" (by decide) htwo (numeral_toString uptimeSecs.toNat)) <|
    .cons (prints_comma "workers" (by decide) htwo (numeral_toString workers)) <|
    .cons (prints_comma "total_requests" (by decide) htwo
      (numeral_toString m.totalRequests.toNat)) <|
    .cons (prints_comma "total_errors" (by decide) htwo (numeral_toString m.totalErrors.toNat)) <|
    .cons (prints_comma "requests_per_second" (by decide) htwo
      (numeral_fixed (isFinite_rps m rateSecs) 1)) <|
    .cons (prints_comma "bytes_out" (by decide) htwo (numeral_toString m.totalBytesOut.toNat)) <|
    .cons hlatency <|
    .cons (prints_comma "mean" (by decide) hfour (numeral_fixed (isFinite_toMs _) 2)) <|
    .cons (prints_comma "p50" (by decide) hfour (numeral_fixed (isFinite_toMs _) 2)) <|
    .cons (prints_comma "p90" (by decide) hfour (numeral_fixed (isFinite_toMs _) 2)) <|
    .cons (prints_last "p99" (by decide) hfour (numeral_fixed (isFinite_toMs _) 2)) <|
    .cons hclose <|
    .cons hcache <|
    .cons (prints_comma "hits" (by decide) hfour (numeral_toString m.cacheHits.toNat)) <|
    .cons (prints_comma "misses" (by decide) hfour (numeral_toString m.cacheMisses.toNat)) <|
    .cons (prints_last "hit_ratio" (by decide) hfour
      (numeral_fixed (isFinite_cacheHitRatio m) 3)) <|
    .cons hclose <|
    .cons hsecurity <|
    .cons (prints_last "blocks" (by decide) hfour (numeral_toString m.securityBlocks.toNat)) <|
    .cons hclose <|
    .cons hcodes <|
    .cons (prints_comma "2xx" (by decide) hfour (numeral_toString m.total2xx.toNat)) <|
    .cons (prints_comma "3xx" (by decide) hfour (numeral_toString m.total3xx.toNat)) <|
    .cons (prints_comma "4xx" (by decide) hfour (numeral_toString m.total4xx.toNat)) <|
    .cons (prints_last "5xx" (by decide) hfour (numeral_toString m.total5xx.toNat)) <|
    .cons hclose <|
    .cons hendpoints .nil
  exact prints_join hlines

/-- The tokens of an entry behind its path. -/
def Row.backTokens (row : Row) : List Token :=
  .comma :: (Value.memberTokens true
    [member "requests" (toString row.reqs.toNat), member "errors" (toString row.errs.toNat),
     member "mean_ms" ((toMs row.mean).fixed 2),
     member "p99_ms" ((toMs row.p99).fixed 2)] ++ [.rbrace])

theorem prints_lines (row : Row) : Prints (",\n" ++ String.join row.lines) row.backTokens := by
  have hindent : "      ".toList.all isBlank = true := by decide
  have hcomma : Prints ",\n" [.comma] := by decide
  have hclose : Prints "    \x7d" [.rbrace] := by decide
  have hlines : List.Forall₂ Prints row.lines _ :=
    .cons (prints_comma "requests" (by decide) hindent (numeral_toString row.reqs.toNat)) <|
    .cons (prints_comma "errors" (by decide) hindent (numeral_toString row.errs.toNat)) <|
    .cons (prints_comma "mean_ms" (by decide) hindent (numeral_fixed (isFinite_toMs row.mean) 2)) <|
    .cons (prints_last "p99_ms" (by decide) hindent (numeral_fixed (isFinite_toMs row.p99) 2)) <|
    .cons hclose .nil
  exact prints_append hcomma (prints_join hlines)

/-- What stands behind an entry. -/
def separator (rows : List Row) : String := if rows.isEmpty then "\n" else ",\n"

def separatorTokens (rows : List Row) : List Token := if rows.isEmpty then [] else [.comma]

theorem prints_separator (rows : List Row) : Prints (separator rows) (separatorTokens rows) := by
  cases rows with
  | nil => exact (by decide : Prints "\n" [])
  | cons => exact (by decide : Prints ",\n" [.comma])

/-- The text of an entry in front of its path. -/
def pathFront : String := "    \x7b\n      \"path\": \""

theorem run_pathFront :
    run .outside pathFront.toList = some (.string [], [.lbrace, .str "path".toList, .colon]) := by
  decide +kernel

/-- An entry and the rest, with the path where it stands in the text. -/
theorem endpointsText_cons (row : Row) (rows : List Row) :
    ∃ back, Reads (',' :: '\n' :: back) (row.backTokens ++ separatorTokens rows) ∧
      (endpointsText (row :: rows)).toList = pathFront.toList ++
        (row.path.toList ++ '"' :: ',' :: '\n' :: (back ++ (endpointsText rows).toList)) := by
  have hback := prints_append (prints_lines row) (prints_separator rows)
  have hcomma : ",\n".toList = [',', '\n'] := by decide
  have hquote : "\",\n".toList = ['"', ',', '\n'] := by decide
  rw [Prints, String.toList_append, String.toList_append, hcomma, List.append_assoc,
    List.cons_append, List.cons_append, List.nil_append] at hback
  have htext : endpointsText (row :: rows) = pathFront ++ (row.path ++ ("\",\n" ++
      (String.join row.lines ++ (separator rows ++ endpointsText rows)))) := rfl
  refine ⟨(String.join row.lines).toList ++ (separator rows).toList, hback, ?_⟩
  simp only [htext, String.toList_append, hquote, List.append_assoc, List.cons_append,
    List.nil_append]

/-! ## the document of bare paths -/

def Row.BarePath (row : Row) : Prop := ∀ c ∈ row.path.toList, Bare c

theorem elementTokens_cons (row : Row) (rows : List Row) :
    Value.elementTokens true ((row :: rows).map Row.value) =
      .lbrace :: .str "path".toList :: .colon :: .str row.path.toList ::
        (row.backTokens ++ separatorTokens rows ++
          Value.elementTokens true (rows.map Row.value)) := by
  cases rows <;> rfl

theorem reads_endpointsText {rows : List Row} (h : ∀ row ∈ rows, row.BarePath) :
    Reads (endpointsText rows).toList (Value.elementTokens true (rows.map Row.value)) := by
  induction rows with
  | nil => exact reads_nil
  | cons row rows ih =>
    obtain ⟨hrow, hrows⟩ := List.forall_mem_cons.1 h
    obtain ⟨back, hback, htext⟩ := endpointsText_cons row rows
    have hclose : step (.string (row.path.toList.map Part.char)) '"' =
        some (.outside, [.str row.path.toList]) := by
      rw [step, if_pos rfl, decode_char]
    have hrest : run .outside (',' :: '\n' :: (back ++ (endpointsText rows).toList)) = _ :=
      hback.append (ih hrows)
    rw [htext, elementTokens_cons, Reads, run_append, run_pathFront, Option.bind_some, run_append,
      run_bare hrow, Option.bind_some, List.nil_append, run_cons_of_step hclose, hrest]
    rfl

theorem tokens_statusValue (m : MetricsCollector) (workers : Nat) (uptimeSecs rateSecs : UInt64)
    (rows : List Row) :
    (m.statusValue workers uptimeSecs rateSecs rows).tokens =
      m.headTokens workers uptimeSecs rateSecs ++
        (Value.elementTokens true (rows.map Row.value) ++ [.rbracket, .rbrace]) := by
  have hhead : (m.headMembers workers uptimeSecs rateSecs).isEmpty = false := rfl
  simp [MetricsCollector.statusValue, MetricsCollector.headTokens, Value.tokens,
    Value.memberTokens_append, hhead, Value.memberTokens]

theorem reads_tail : Reads "  ]\n\x7d\n".toList [.rbracket, .rbrace] := by
  decide

theorem denotes_statusJson (m : MetricsCollector) (workers : Nat) (uptimeSecs rateSecs : UInt64)
    (entries : List (String × EndpointMetrics))
    (h : ∀ row ∈ sortRows (entries.map Row.ofEntry), row.BarePath) :
    Denotes (m.statusJson workers uptimeSecs rateSecs entries)
      (m.statusValue workers uptimeSecs rateSecs (sortRows (entries.map Row.ofEntry))) := by
  have hall := (prints_head m workers uptimeSecs rateSecs).append
    ((reads_endpointsText h).append reads_tail)
  rw [Denotes, MetricsCollector.statusJson, String.toList_append, String.toList_append, hall.lex,
    tokens_statusValue]

/-! ## the document of any paths -/

/-- The fixed strings of the document are keys. -/
theorem weigh_backTokens (row : Row) (rows : List Row) (ts : List Token) :
    weigh 0 (row.backTokens ++ separatorTokens rows ++ ts) = weigh 0 ts := by
  cases rows <;>
    simp only [Row.backTokens, Value.memberTokens, member, Value.tokens, separatorTokens, weigh,
      List.isEmpty_nil, List.isEmpty_cons, if_true, Bool.false_eq_true, if_false, List.cons_append,
      List.nil_append, List.append_nil, Nat.zero_add]

/-- What is read of the entries weighs no more than their paths, and less if one of them is
not bare. -/
theorem weigh_endpointsText (rows : List Row) {mode : Mode} {ts : List Token}
    (h : run .outside ((endpointsText rows).toList ++ "  ]\n\x7d\n".toList) = some (mode, ts)) :
    mode = .outside ∧ weigh 0 ts ≤ (rows.map fun row => row.path.toList.length).sum ∧
      ((∀ row ∈ rows, row.BarePath) ∨
        weigh 0 ts < (rows.map fun row => row.path.toList.length).sum) := by
  induction rows generalizing ts with
  | nil =>
    obtain ⟨rfl, rfl⟩ := Prod.mk.inj (Option.some.inj (reads_tail.symm.trans h))
    exact ⟨rfl, by decide, .inl (List.forall_mem_nil _)⟩
  | cons row rows ih =>
    obtain ⟨back, hback, htext⟩ := endpointsText_cons row rows
    rw [htext, List.append_assoc, List.append_assoc, List.cons_append, List.cons_append,
      List.cons_append, List.append_assoc] at h
    obtain ⟨mid, us, hrest, rfl, hle, hlt⟩ := run_written run_pathFront hback h
    obtain ⟨hmode, hrows, hbare⟩ := ih hrest
    have hweigh := weigh_append_le 0 mid (row.backTokens ++ separatorTokens rows ++ us)
    rw [weigh_backTokens] at hweigh
    have hfront : weigh 0 ([.lbrace, .str "path".toList, .colon] ++
        (mid ++ (row.backTokens ++ separatorTokens rows ++ us))) =
          weigh 0 (mid ++ (row.backTokens ++ separatorTokens rows ++ us)) := by
      simp only [List.cons_append, List.nil_append, weigh, Nat.zero_add]
    rw [hfront, List.map_cons, List.sum_cons, List.forall_mem_cons]
    refine ⟨hmode, by omega, ?_⟩
    obtain hpath | hlt := hlt
    · obtain hbare | hless := hbare
      · exact .inl ⟨hpath, hbare⟩
      · exact .inr (by omega)
    · exact .inr (by omega)

theorem weigh_headTokens (m : MetricsCollector) (workers : Nat) (uptimeSecs rateSecs : UInt64)
    (ts : List Token) : weigh 0 (m.headTokens workers uptimeSecs rateSecs ++ ts) = weigh 0 ts := by
  simp only [MetricsCollector.headTokens, MetricsCollector.headMembers, Value.memberTokens, member,
    Value.tokens, weigh, if_true, Bool.false_eq_true, if_false, List.cons_append, List.nil_append,
    List.append_nil, Nat.zero_add]

/-- The strings of the document weigh no more than the paths, and less if a path is not
bare. -/
theorem weight_of_denotes {m : MetricsCollector} {workers : Nat} {uptimeSecs rateSecs : UInt64}
    {entries : List (String × EndpointMetrics)} {v : Value}
    (h : Denotes (m.statusJson workers uptimeSecs rateSecs entries) v) :
    (∀ row ∈ sortRows (entries.map Row.ofEntry), row.BarePath) ∨
      v.weight <
        ((sortRows (entries.map Row.ofEntry)).map fun row => row.path.toList.length).sum := by
  obtain ⟨⟨mode, ts⟩, hrun, hfinish⟩ := Option.bind_eq_some_iff.1 h
  obtain ⟨last, hlast, htokens⟩ := Option.map_eq_some_iff.1 hfinish
  rw [MetricsCollector.statusJson, String.toList_append, String.toList_append] at hrun
  obtain ⟨mode', head, ⟨mode'', us⟩, hhead, hrest, heq⟩ := run_append_eq_some.1 hrun
  obtain ⟨rfl, rfl⟩ := Prod.mk.inj (Option.some.inj
    ((prints_head m workers uptimeSecs rateSecs).symm.trans hhead))
  rw [Result.behind_mk] at heq
  obtain ⟨rfl, rfl⟩ := Prod.mk.inj heq
  obtain ⟨rfl, -, hweigh⟩ := weigh_endpointsText _ hrest
  obtain rfl := Option.some.inj hlast
  have hweight := weigh_of_tokens v
  rw [← htokens, List.append_nil, weigh_headTokens] at hweight
  rwa [← hweight]

/-! ## what the document reports -/

/-- The path and the number of requests that an object shows. -/
def shown (v : Value) : Option (List Char × List Char) :=
  match v.valuesOf "path".toList, v.valuesOf "requests".toList with
  | [.str path], [.num requests] => some (path, requests)
  | _, _ => none

/-- The array has one object for every path, which shows the path and the number of its
requests. -/
def Reports (v : Value) (events : List Event) : Prop :=
  ∃ objects, v.valuesOf "endpoints".toList = [.arr objects] ∧
    (objects.map shown).Perm ((paths events).dedup.map fun path =>
      some (path.toList, (toString ((paths events).count path)).toList))

theorem shown_value (row : Row) :
    shown row.value = some (row.path.toList, (toString row.reqs.toNat).toList) := by
  simp [shown, Row.value, Value.valuesOf, member]

theorem valuesOf_statusValue (m : MetricsCollector) (workers : Nat) (uptimeSecs rateSecs : UInt64)
    (rows : List Row) :
    (m.statusValue workers uptimeSecs rateSecs rows).valuesOf "endpoints".toList =
      [.arr (rows.map Row.value)] := by
  simp [MetricsCollector.statusValue, MetricsCollector.headMembers, Value.valuesOf, member]

theorem length_le_of_shown {v : Value} {path requests : List Char}
    (h : shown v = some (path, requests)) : path.length ≤ v.weight := by
  rw [shown] at h
  split at h
  case h_1 path' requests' hpath hrequests =>
    obtain ⟨rfl, -⟩ := Prod.mk.inj (Option.some.inj h)
    have hmem : Value.str path' ∈ v.valuesOf "path".toList := by
      rw [hpath]
      exact List.mem_singleton_self _
    exact Value.weight_le_of_mem hmem
  case h_2 => exact absurd h (Option.some_ne_none _).symm

/-- The paths are strings of a value that reports them. -/
theorem sum_le_weight {v : Value} {events : List Event} (h : Reports v events) :
    ((paths events).dedup.map fun path => path.toList.length).sum ≤ v.weight := by
  obtain ⟨objects, harray, hperm⟩ := h
  have hmem : Value.arr objects ∈ v.valuesOf "endpoints".toList := by
    rw [harray]
    exact List.mem_singleton_self _
  have hsize : ∀ o ∈ objects, ((shown o).map fun s => s.1.length).getD 0 ≤ o.weight := by
    intro o _
    cases hshown : shown o with
    | none => exact Nat.zero_le _
    | some s => exact length_le_of_shown hshown
  have hsum := (hperm.map fun s => (s.map fun s => s.1.length).getD 0).sum_eq
  simp only [List.map_map] at hsum
  calc ((paths events).dedup.map fun path => path.toList.length).sum
      = (objects.map fun o => ((shown o).map fun s => s.1.length).getD 0).sum := hsum.symm
    _ ≤ (objects.map Value.weight).sum := List.sum_le_sum hsize
    _ = (Value.arr objects).weight := by rw [Value.weight, Value.elementWeight_eq]
    _ ≤ v.weight := Value.weight_le_of_mem hmem

section Document

variable {events : List Event} {entries : List (String × EndpointMetrics)} {row : Row}

theorem exists_entry (h : row ∈ sortRows (entries.map Row.ofEntry)) :
    ∃ entry ∈ entries, row = Row.ofEntry entry := by
  obtain ⟨entry, hentry, rfl⟩ := List.mem_map.1 (List.mem_mergeSort.1 h)
  exact ⟨entry, hentry, rfl⟩

theorem perm_rows (h : entries.Perm (collect events).endpoints) :
    ((sortRows (entries.map Row.ofEntry)).map Row.path).Perm (paths events).dedup := by
  have hsorted : (sortRows (entries.map Row.ofEntry)).Perm (entries.map Row.ofEntry) :=
    List.mergeSort_perm _ _
  have hkeys : (entries.map Row.ofEntry).map Row.path = entries.map Prod.fst := by
    rw [List.map_map]
    rfl
  have hpaths := hsorted.map Row.path
  rw [hkeys] at hpaths
  exact hpaths.trans ((h.map Prod.fst).trans (perm_keys_collect events))

theorem reqs_of_mem (h : entries.Perm (collect events).endpoints)
    (hrow : row ∈ sortRows (entries.map Row.ofEntry)) :
    row.reqs = .ofNat ((paths events).count row.path) := by
  obtain ⟨⟨path, e⟩, hentry, rfl⟩ := exists_entry hrow
  exact requests_of_mem (h.mem_iff.1 hentry)

theorem exists_row (h : entries.Perm (collect events).endpoints) {path : String}
    (hpath : path ∈ paths events) : ∃ row ∈ sortRows (entries.map Row.ofEntry), row.path = path :=
  List.mem_map.1 ((perm_rows h).mem_iff.2 (List.mem_dedup.2 hpath))

/-- A document that reports the requests has bare paths only: a string cannot be longer than
what was written for it. -/
theorem barePath_of_reports {m : MetricsCollector} {workers : Nat} {uptimeSecs rateSecs : UInt64}
    {v : Value} (h : entries.Perm (collect events).endpoints)
    (hdenotes : Denotes (m.statusJson workers uptimeSecs rateSecs entries) v)
    (hreports : Reports v events) : ∀ row ∈ sortRows (entries.map Row.ofEntry), row.BarePath := by
  have hsum := ((perm_rows h).map fun path => path.toList.length).sum_eq
  rw [List.map_map] at hsum
  refine (weight_of_denotes hdenotes).resolve_right (Nat.not_lt.2 ?_)
  exact Nat.le_trans (Nat.le_of_eq hsum) (sum_le_weight hreports)

theorem count_lt_of_reports {m : MetricsCollector} {workers : Nat} {uptimeSecs rateSecs : UInt64}
    (h : Reports (m.statusValue workers uptimeSecs rateSecs (sortRows (entries.map Row.ofEntry)))
      events) {path : String} (hpath : path ∈ paths events) :
    (paths events).count path < 2 ^ 64 := by
  obtain ⟨objects, harray, hperm⟩ := h
  rw [valuesOf_statusValue, List.singleton_inj, Value.arr.injEq] at harray
  subst harray
  have hmem := hperm.mem_iff.2 (List.mem_map_of_mem (List.mem_dedup.2 hpath))
  rw [List.map_map] at hmem
  obtain ⟨row, -, hshown⟩ := List.mem_map.1 hmem
  rw [Function.comp_apply, shown_value, Option.some.injEq, Prod.mk.injEq] at hshown
  rw [← toString_toList_inj hshown.2]
  exact row.reqs.toNat_lt

theorem reports_statusValue (m : MetricsCollector) (workers : Nat) (uptimeSecs rateSecs : UInt64)
    (h : entries.Perm (collect events).endpoints)
    (hcount : ∀ path ∈ paths events, (paths events).count path < 2 ^ 64) :
    Reports (m.statusValue workers uptimeSecs rateSecs (sortRows (entries.map Row.ofEntry)))
      events := by
  have hshown : ((sortRows (entries.map Row.ofEntry)).map Row.value).map shown =
      ((sortRows (entries.map Row.ofEntry)).map Row.path).map fun path =>
        some (path.toList, (toString ((paths events).count path)).toList) := by
    rw [List.map_map, List.map_map]
    refine List.map_congr_left fun row hrow => ?_
    have hpath := (perm_rows h).mem_iff.1 (List.mem_map_of_mem hrow)
    rw [Function.comp_apply, Function.comp_apply, shown_value, reqs_of_mem h hrow,
      UInt64.toNat_ofNat', Nat.mod_eq_of_lt (hcount row.path (List.mem_dedup.1 hpath))]
  refine ⟨_, valuesOf_statusValue _ _ _ _ _, ?_⟩
  rw [hshown]
  exact (perm_rows h).map _

end Document

/-- The document is well formed and reports the requests iff no path has a character that
would have to be escaped and no counter has wrapped around. -/
theorem statusJson_reports_iff (events : List Event) (workers : Nat) (uptimeSecs rateSecs : UInt64)
    (entries : List (String × EndpointMetrics))
    (hentries : entries.Perm (collect events).endpoints) :
    (∃ v, Denotes ((collect events).statusJson workers uptimeSecs rateSecs entries) v ∧
      Reports v events) ↔
      ∀ path ∈ paths events,
        (∀ c ∈ path.toList, c ≠ '"' ∧ c ≠ '\\' ∧ 0x20 ≤ c.toNat) ∧
          (paths events).count path < 2 ^ 64 := by
  constructor
  · rintro ⟨v, hdenotes, hreports⟩ path hpath
    have hbare := barePath_of_reports hentries hdenotes hreports
    -- the document has one value, so its numbers are those of the counters
    obtain rfl := denotes_unique hdenotes (denotes_statusJson _ _ _ _ entries hbare)
    obtain ⟨row, hrow, rfl⟩ := exists_row hentries hpath
    exact ⟨hbare row hrow, count_lt_of_reports hreports hpath⟩
  · intro hall
    have hbare : ∀ row ∈ sortRows (entries.map Row.ofEntry), row.BarePath := by
      intro row hrow
      have hpath := (perm_rows hentries).mem_iff.1 (List.mem_map_of_mem hrow)
      exact (hall row.path (List.mem_dedup.1 hpath)).1
    exact ⟨_, denotes_statusJson _ _ _ _ entries hbare,
      reports_statusValue _ _ _ _ hentries fun path hpath => (hall path hpath).2⟩

/-- A page that was served twice and once not found. -/
def visits : List Event := [.request "/a.php" 200 500 1024, .cacheHit, .request "/a.php" 404 90 0]

theorem statusJson_reports_iff_visits :
    ∃ v, Denotes ((collect visits).statusJson 4 60 60 (collect visits).endpoints) v ∧
      Reports v visits := by
  refine (statusJson_reports_iff visits 4 60 60 _ (.refl _)).2 fun path hpath => ?_
  have hpaths : paths visits = ["/a.php", "/a.php"] := rfl
  obtain rfl : path = "/a.php" := by
    rw [hpaths] at hpath
    simpa using hpath
  have hbare : ("/a.php".toList.all fun c => c ≠ '"' && c ≠ '\\' && 0x20 ≤ c.toNat) = true := by
    decide
  exact ⟨fun c hc => by simpa [and_assoc] using List.all_eq_true.1 hbare c hc, by decide⟩

/-- A request for a path with a quote in it. -/
def quotedVisit : List Event := [.request "/a\"b.php" 404 90 0]

theorem statusJson_quoted :
    ¬ ∃ v, Denotes ((collect quotedVisit).statusJson 4 60 60 (collect quotedVisit).endpoints) v ∧
      Reports v quotedVisit := by
  rintro ⟨v, hdenotes, hreports⟩
  have hpath : "/a\"b.php" ∈ paths quotedVisit := by decide
  obtain ⟨row, hrow, heq⟩ := exists_row (.refl _) hpath
  have hbare := barePath_of_reports (.refl _) hdenotes hreports row hrow
  rw [Row.BarePath, heq] at hbare
  exact absurd rfl (hbare '"' (by decide)).1

end Turbine.Metrics
