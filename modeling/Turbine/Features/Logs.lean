import Turbine.Base.Json
import Turbine.Base.Occurrences
import Turbine.Base.Patterns
import Turbine.Base.Separators
import Turbine.Http.Form

/-!
# Turbine.Features.Logs

Structured logging (crates/turbine-core/src/features.rs): a script writes log lines into its
output with `turbine_log`, and the server takes them out again.

* `extract_of_endsLine`: what comes out if every log line stands where a line begins.
-/

namespace Turbine.Features

open Base Http

/-! ## log entries -/

/-- `TURBINE_LOG_MARKER`. -/
def turbineLogMarker : String := "__TURBINE_LOG__\t"

structure PhpLogEntry where
  level : String
  message : String
  context : List (String × String)
deriving DecidableEq, Repr

/-- The loop of `split_json_fields`, with the character before and the field so far. -/
def scanFields (inQuotes : Bool) (prev : Option Char) (field : List Char) :
    List Char → List (List Char)
  | [] => if field.isEmpty then [] else [field]
  | c :: cs =>
    if c = '"' ∧ prev ≠ some '\\' then scanFields (!inQuotes) (some c) (field ++ [c]) cs
    else if c = ',' ∧ inQuotes = false then field :: scanFields inQuotes (some c) [] cs
    else scanFields inQuotes (some c) (field ++ [c]) cs

/-- `split_json_fields`. -/
def splitJsonFields (s : String) : List String :=
  (scanFields false none [] s.toList).map String.ofList

/-- `trim().trim_matches('"')`. -/
def unquoted (s : String) : String := trimEndMatches (trimStartMatches (trim s) '"') '"'

/-- A key and a value. -/
def parseField (part : String) : Option (String × String) :=
  (splitOnce part ':').map fun p => (unquoted p.1, unquoted p.2)

/-- A field of an entry. -/
def PhpLogEntry.set (e : PhpLogEntry) (field : String × String) : PhpLogEntry :=
  if field.1 = "level" then { e with level := field.2 }
  else if field.1 = "msg" ∨ field.1 = "message" then { e with message := field.2 }
  else { e with context := e.context ++ [field] }

/-- `parse_log_json`. -/
def parseLogJson (json : String) : Option PhpLogEntry :=
  let trimmed := trimEndMatches (trimStartMatches (trim json) '{') '}'
  let entry := ((splitJsonFields trimmed).filterMap parseField).foldl PhpLogEntry.set
    ⟨"info", "", []⟩
  if entry.message.isEmpty then none else some entry

/-- A line of the output. -/
def extractLine (acc : Bytes × List PhpLogEntry) (line : String) : Bytes × List PhpLogEntry :=
  match stripPrefix line turbineLogMarker with
  | some json =>
    match parseLogJson (trim json) with
    | some entry => (acc.1, acc.2 ++ [entry])
    | none => acc
  | none =>
    if acc.1 ≠ [] ∨ line ≠ "" then
      ((if acc.1 ≠ [] then acc.1 ++ [0x0A] else acc.1) ++ utf8 line, acc.2)
    else acc

/-- `extract_structured_logs`. -/
def extractStructuredLogs (body : Bytes) : Bytes × List PhpLogEntry :=
  match fromUtf8 body with
  | none => (body, [])
  | some text =>
    if containsStr text turbineLogMarker then (split text '\n').foldl extractLine ([], [])
    else (body, [])

/-! ## putting them in -/

/-- A call of `turbine_log` with a message that is not empty.  The values of the context are
texts: what is not a scalar has been encoded. -/
structure LogCall where
  message : String
  level : String
  context : List (String × String)
  message_ne : message ≠ ""
deriving DecidableEq, Repr

/-- `$entry`: an array, in which a key of the context may take the place of another. -/
def LogCall.entry (call : LogCall) : List (String × String) :=
  call.context.foldl (fun entry p => insertEntry p.1 p.2 entry)
    [("level", call.level), ("msg", call.message)]

/-- The entry in JSON. -/
def LogCall.json (call : LogCall) : String := Json.object call.entry

/-- `turbine_log`: the line that is written. -/
def turbineLog (call : LogCall) : String := turbineLogMarker ++ call.json ++ "\n"

/-- The output of a script: texts without the marker, with calls of `turbine_log` between
them. -/
structure Output where
  first : String
  rest : List (LogCall × String)
  unmarked : ∀ seg ∈ first :: rest.map Prod.snd, containsStr seg turbineLogMarker = false

namespace Output

/-- What the server gets. -/
def text (o : Output) : String := o.first ++ String.join (o.rest.map fun p => turbineLog p.1 ++ p.2)

/-- What the script wrote but for the log lines. -/
def page (o : Output) : String := o.first ++ String.join (o.rest.map Prod.snd)

/-- The log lines are taken out, one entry for each of them, and nothing else changes. -/
def Intact (o : Output) : Prop :=
  ∃ entries, extractStructuredLogs (utf8 o.text) = (utf8 o.page, entries) ∧
    entries.map some = o.rest.map fun p => parseLogJson p.1.json

/-- The texts that stand before a log line. -/
def before (o : Output) : List String := ((o.first :: o.rest.map Prod.snd)).dropLast

end Output

/-! ## lines -/

/-- A line that is kept. -/
def isText (line : List Char) : Bool := !turbineLogMarker.toList.isPrefixOf line

/-- What the log lines have behind the marker. -/
def logTexts (lines : List (List Char)) : List (List Char) :=
  lines.filterMap turbineLogMarker.toList.isPrefixOf?

/-- The entries for them. -/
def entriesOf (texts : List (List Char)) : List PhpLogEntry :=
  texts.filterMap fun json => parseLogJson (trim (String.ofList json))

variable {line : List Char} {lines : List (List Char)} {acc : Bytes × List PhpLogEntry}
  {entries : List PhpLogEntry}

theorem stripPrefix_ofList (line : List Char) : stripPrefix (String.ofList line) turbineLogMarker =
    (turbineLogMarker.toList.isPrefixOf? line).map String.ofList := by
  rw [stripPrefix, String.toList_ofList (l := line)]

theorem isText_eq_false {json : List Char}
    (h : turbineLogMarker.toList.isPrefixOf? line = some json) : isText line = false := by
  rw [isText, ← List.isSome_isPrefixOf?_eq_isPrefixOf, h]
  rfl

theorem isText_eq_true (h : turbineLogMarker.toList.isPrefixOf? line = none) :
    isText line = true := by
  rw [isText, ← List.isSome_isPrefixOf?_eq_isPrefixOf, h]
  rfl

theorem extractLine_log {json : List Char}
    (h : turbineLogMarker.toList.isPrefixOf? line = some json) :
    extractLine acc (String.ofList line) = (acc.1, acc.2 ++ entriesOf [json]) := by
  rw [extractLine, stripPrefix_ofList, h, Option.map_some, entriesOf]
  dsimp only
  cases hparse : parseLogJson (trim (String.ofList json)) with
  | none => simp [hparse]
  | some entry => simp [hparse]

theorem extractLine_text (h : turbineLogMarker.toList.isPrefixOf? line = none) :
    extractLine acc (String.ofList line) =
      if acc.1 ≠ [] ∨ line ≠ [] then
        ((if acc.1 ≠ [] then acc.1 ++ [0x0A] else acc.1) ++ encodeChars line, acc.2)
      else acc := by
  have hempty : String.ofList line ≠ "" ↔ line ≠ [] := not_congr String.ofList_eq_empty_iff
  rw [extractLine, stripPrefix_ofList, h, Option.map_none]
  dsimp only
  rw [utf8, String.toList_ofList, if_congr (or_congr_right hempty) rfl rfl]

theorem entriesOf_cons (json : List Char) (texts : List (List Char)) :
    entriesOf (json :: texts) = entriesOf [json] ++ entriesOf texts := by
  rw [entriesOf, entriesOf, entriesOf, ← List.filterMap_append, List.singleton_append]

theorem logTexts_append (lines lines' : List (List Char)) :
    logTexts (lines ++ lines') = logTexts lines ++ logTexts lines' := List.filterMap_append

theorem logTexts_cons_log {json : List Char}
    (h : turbineLogMarker.toList.isPrefixOf? line = some json) :
    logTexts (line :: lines) = json :: logTexts lines := List.filterMap_cons_some h

theorem logTexts_cons_text (h : turbineLogMarker.toList.isPrefixOf? line = none) :
    logTexts (line :: lines) = logTexts lines := List.filterMap_cons_none h

/-- With something kept already, each line is kept with the newline before it. -/
theorem foldl_extractLine_of_ne_nil {cleaned : Bytes} (hne : cleaned ≠ []) :
    (lines.map String.ofList).foldl extractLine (cleaned, entries) =
      (cleaned ++ (lines.filter isText).flatMap (fun line => 0x0A :: encodeChars line),
        entries ++ entriesOf (logTexts lines)) := by
  induction lines generalizing cleaned entries with
  | nil => simp [entriesOf, logTexts]
  | cons line lines ih =>
    rw [List.map_cons, List.foldl_cons]
    cases hline : turbineLogMarker.toList.isPrefixOf? line with
    | some json =>
      rw [extractLine_log hline, ih hne, logTexts_cons_log hline, entriesOf_cons json (logTexts _),
        List.filter_cons_of_neg (by simp [isText_eq_false hline]), List.append_assoc]
    | none =>
      rw [extractLine_text hline, if_pos (.inl hne), if_pos hne, ih (by simp),
        logTexts_cons_text hline, List.filter_cons_of_pos (isText_eq_true hline)]
      simp

theorem encodeChars_intercalate (line : List Char) (lines : List (List Char)) :
    encodeChars (['\n'].intercalate (line :: lines)) =
      encodeChars line ++ lines.flatMap fun line => 0x0A :: encodeChars line := by
  have hnewline : encodeChars ['\n'] = [0x0A] := rfl
  induction lines generalizing line with
  | nil => simp
  | cons next lines ih =>
    rw [List.intercalate_cons_cons, encodeChars_append, encodeChars_append, ih, hnewline]
    simp

theorem encodeChars_ne_nil {cs : List Char} (h : cs ≠ []) : encodeChars cs ≠ [] := by
  obtain ⟨c, cs, rfl⟩ := List.exists_cons_of_ne_nil h
  have hpos := Char.utf8Size_pos c
  rw [← String.length_utf8EncodeChar] at hpos
  rw [encodeChars_cons]
  exact List.append_ne_nil_of_left_ne_nil (List.ne_nil_of_length_pos hpos) _

/-- The lines that are kept are joined again, but for empty lines in front. -/
theorem foldl_extractLine :
    (lines.map String.ofList).foldl extractLine ([], entries) =
      (encodeChars (['\n'].intercalate ((lines.filter isText).dropWhile List.isEmpty)),
        entries ++ entriesOf (logTexts lines)) := by
  induction lines generalizing entries with
  | nil => simp [entriesOf, logTexts]
  | cons line lines ih =>
    rw [List.map_cons, List.foldl_cons]
    cases hline : turbineLogMarker.toList.isPrefixOf? line with
    | some json =>
      rw [extractLine_log hline, ih, logTexts_cons_log hline, entriesOf_cons json (logTexts _),
        List.filter_cons_of_neg (by simp [isText_eq_false hline]), List.append_assoc]
    | none =>
      rw [extractLine_text hline, logTexts_cons_text hline,
        List.filter_cons_of_pos (isText_eq_true hline)]
      cases line with
      | nil => rw [if_neg (by simp), ih, List.dropWhile_cons_of_pos rfl]
      | cons c line =>
        rw [if_pos (.inr (List.cons_ne_nil _ _)), if_neg (by simp), List.nil_append,
          foldl_extractLine_of_ne_nil (encodeChars_ne_nil (List.cons_ne_nil _ _)),
          List.dropWhile_cons_of_neg (by simp), encodeChars_intercalate]

/-! ## the lines of an output -/

/-- A text that ends where a line begins. -/
def EndsLine (cs : List Char) : Prop := cs = [] ∨ ['\n'] <:+ cs

instance {cs : List Char} : Decidable (EndsLine cs) := inferInstanceAs (Decidable (_ ∨ _))

/-- Every text is one that ends where a line begins, with the beginning of a line. -/
theorem exists_endsLine_append (cs : List Char) :
    ∃ front line, cs = front ++ line ∧ EndsLine front ∧ '\n' ∉ line := by
  induction cs with
  | nil => exact ⟨[], [], rfl, .inl rfl, by simp⟩
  | cons c cs ih =>
    obtain ⟨front, line, rfl, rfl | hfront, hline⟩ := ih
    · by_cases hc : c = '\n'
      · exact ⟨[c], line, rfl, .inr (hc ▸ List.suffix_rfl), hline⟩
      · exact ⟨[], c :: line, rfl, .inl rfl, by simp [hline, Ne.symm hc]⟩
    · exact ⟨c :: front, line, rfl, .inr (hfront.trans (List.suffix_cons _ _)), hline⟩

/-- The lines of a text that ends where a line begins, and those of what follows. -/
theorem EndsLine.splitOn {cs : List Char} (h : EndsLine cs) :
    ∃ lines, (∀ rest, (cs ++ rest).splitOn '\n' = lines ++ rest.splitOn '\n') ∧
      ∀ line ∈ lines, line <:+: cs := by
  rcases h with rfl | ⟨front, rfl⟩
  · exact ⟨[], fun rest => rfl, by simp⟩
  · refine ⟨front.splitOn '\n', fun rest => ?_, fun line hline => ?_⟩
    · rw [List.append_assoc, List.singleton_append, splitOn_append_cons]
    · exact (infix_of_mem_splitOn hline).trans (List.prefix_append _ _).isInfix

/-- Texts with log lines between them. -/
def interleaved (first : List Char) (rest : List (List Char × List Char)) : List Char :=
  first ++ rest.flatMap fun p => turbineLogMarker.toList ++ p.1 ++ '\n' :: p.2

variable {first : List Char} {rest : List (List Char × List Char)}

theorem interleaved_cons (p : List Char × List Char) :
    interleaved first (p :: rest) =
      first ++ (turbineLogMarker.toList ++ p.1 ++ '\n' :: interleaved p.2 rest) := by
  simp [interleaved]

theorem isPrefixOf_of_unmarked (h : ¬ turbineLogMarker.toList <:+: first)
    (hline : line <:+: first) : turbineLogMarker.toList.isPrefixOf? line = none := by
  rw [← Option.not_isSome_iff_eq_none, List.isSome_isPrefixOf?_eq_isPrefixOf,
    List.isPrefixOf_iff_prefix]
  exact fun hmark => h (hmark.isInfix.trans hline)

theorem logTexts_of_unmarked (h : ¬ turbineLogMarker.toList <:+: first)
    (hlines : ∀ line ∈ lines, line <:+: first) :
    logTexts lines = [] ∧ lines.filter isText = lines := by
  refine ⟨List.filterMap_eq_nil_iff.2 fun line hline => ?_,
    List.filter_eq_self.2 fun line hline => ?_⟩
  · exact isPrefixOf_of_unmarked h (hlines line hline)
  · exact isText_eq_true (isPrefixOf_of_unmarked h (hlines line hline))

/-- A log line that stands where a line begins is found. -/
theorem lines_of_endsLine {p : List Char × List Char} (hfirst : EndsLine first)
    (hunmarked : ¬ turbineLogMarker.toList <:+: first) (hjson : '\n' ∉ p.1) :
    logTexts ((interleaved first (p :: rest)).splitOn '\n') =
        p.1 :: logTexts ((interleaved p.2 rest).splitOn '\n') ∧
      ∃ lines, ((interleaved first (p :: rest)).splitOn '\n').filter isText =
          lines ++ ((interleaved p.2 rest).splitOn '\n').filter isText ∧
        ∀ page, (first ++ page).splitOn '\n' = lines ++ page.splitOn '\n' := by
  obtain ⟨lines, hlines, hstretch⟩ := hfirst.splitOn
  obtain ⟨hnone, hall⟩ := logTexts_of_unmarked hunmarked hstretch
  have hlog : turbineLogMarker.toList.isPrefixOf? (turbineLogMarker.toList ++ p.1) = some p.1 :=
    List.isPrefixOf?_eq_some_iff_append_eq.2 rfl
  have hmarker : '\n' ∉ turbineLogMarker.toList := by decide
  have hsplit : (interleaved first (p :: rest)).splitOn '\n' =
      lines ++ (turbineLogMarker.toList ++ p.1) :: (interleaved p.2 rest).splitOn '\n' := by
    rw [interleaved_cons, hlines, splitOn_append_sep (by simp [hmarker, hjson])]
  refine ⟨?_, lines, ?_, hlines⟩
  · rw [hsplit, logTexts_append, hnone, List.nil_append, logTexts_cons_log hlog]
  · rw [hsplit, List.filter_append, hall, List.filter_cons_of_neg (by simp [isText_eq_false hlog])]

/-- One that does not is not found. -/
theorem lines_of_not_endsLine {p : List Char × List Char} (hfirst : ¬ EndsLine first)
    (hunmarked : ¬ turbineLogMarker.toList <:+: first) (hjson : '\n' ∉ p.1) :
    logTexts ((interleaved first (p :: rest)).splitOn '\n') =
      logTexts ((interleaved p.2 rest).splitOn '\n') := by
  obtain ⟨front, line, rfl, hfront, hline⟩ := exists_endsLine_append first
  obtain ⟨lines, hlines, hstretch⟩ := hfront.splitOn
  have hfrontinfix : ∀ line' ∈ lines, line' <:+: front ++ line :=
    fun line' h => (hstretch line' h).trans (List.prefix_append _ _).isInfix
  obtain ⟨hnone, -⟩ := logTexts_of_unmarked hunmarked hfrontinfix
  have hmarker : '\n' ∉ turbineLogMarker.toList := by decide
  have hsplit : (interleaved (front ++ line) (p :: rest)).splitOn '\n' =
      lines ++ (line ++ (turbineLogMarker.toList ++ p.1)) ::
        (interleaved p.2 rest).splitOn '\n' := by
    rw [interleaved_cons, List.append_assoc, hlines, ← List.append_assoc,
      splitOn_append_sep (by simp [hline, hmarker, hjson])]
  have htext : turbineLogMarker.toList.isPrefixOf? (line ++ (turbineLogMarker.toList ++ p.1)) =
      none := by
    rw [← Option.not_isSome_iff_eq_none, List.isSome_isPrefixOf?_eq_isPrefixOf,
      List.isPrefixOf_iff_prefix]
    intro hmark
    have hunbordered : Unbordered turbineLogMarker.toList := by decide
    rcases hunbordered.eq_nil_or hmark with rfl | hinline
    · exact hfirst (by rwa [List.append_nil])
    · exact hunmarked (hinline.isInfix.trans (List.suffix_append _ _).isInfix)
  rw [hsplit, logTexts_append, hnone, List.nil_append, logTexts_cons_text htext]

/-- The texts that stand before a log line. -/
def before (first : List Char) (rest : List (List Char × List Char)) : List (List Char) :=
  (first :: rest.map Prod.snd).dropLast

theorem before_cons (p : List Char × List Char) :
    before first (p :: rest) = first :: before p.2 rest := by
  rw [before, List.map_cons, List.dropLast_cons_cons]
  rfl

/-- As many log lines are found as stand where a line begins. -/
theorem length_logTexts
    (hunmarked : ∀ seg ∈ first :: rest.map Prod.snd, ¬ turbineLogMarker.toList <:+: seg)
    (hjson : ∀ p ∈ rest, '\n' ∉ p.1) :
    (logTexts ((interleaved first rest).splitOn '\n')).length =
      (before first rest).countP (EndsLine ·) := by
  induction rest generalizing first with
  | nil =>
    have hfirst := hunmarked first List.mem_cons_self
    obtain ⟨hnone, -⟩ := logTexts_of_unmarked hfirst fun line => infix_of_mem_splitOn (a := '\n')
    simp [interleaved, hnone, before]
  | cons p rest ih =>
    obtain ⟨hfirst, hsegs⟩ := List.forall_mem_cons.1 hunmarked
    obtain ⟨hp, hrest⟩ := List.forall_mem_cons.1 hjson
    rw [before_cons]
    by_cases hends : EndsLine first
    · rw [(lines_of_endsLine hends hfirst hp).1, List.length_cons, ih hsegs hrest,
        List.countP_cons_of_pos (by simpa using hends)]
    · rw [lines_of_not_endsLine hends hfirst hp, ih hsegs hrest,
        List.countP_cons_of_neg (by simpa using hends)]

/-- If all of them do, they are found in order, and the other lines are those of the page. -/
theorem lines_interleaved
    (hunmarked : ∀ seg ∈ first :: rest.map Prod.snd, ¬ turbineLogMarker.toList <:+: seg)
    (hjson : ∀ p ∈ rest, '\n' ∉ p.1) (hends : ∀ seg ∈ before first rest, EndsLine seg) :
    logTexts ((interleaved first rest).splitOn '\n') = rest.map Prod.fst ∧
      ((interleaved first rest).splitOn '\n').filter isText =
        (first ++ rest.flatMap Prod.snd).splitOn '\n' := by
  induction rest generalizing first with
  | nil =>
    have hfirst := hunmarked first List.mem_cons_self
    obtain ⟨hnone, hall⟩ := logTexts_of_unmarked hfirst fun line => infix_of_mem_splitOn (a := '\n')
    simp [interleaved, hnone, hall]
  | cons p rest ih =>
    obtain ⟨hfirst, hsegs⟩ := List.forall_mem_cons.1 hunmarked
    obtain ⟨hp, hrest⟩ := List.forall_mem_cons.1 hjson
    rw [before_cons] at hends
    obtain ⟨hends, hmore⟩ := List.forall_mem_cons.1 hends
    obtain ⟨ihlogs, ihlines⟩ := ih hsegs hrest hmore
    obtain ⟨hlogs, lines, hlines, hpage⟩ := lines_of_endsLine hends hfirst hp
    refine ⟨by rw [hlogs, ihlogs, List.map_cons], ?_⟩
    rw [hlines, ihlines, List.flatMap_cons, hpage]

theorem length_intercalate_dropWhile_le (lines : List (List Char)) :
    (['\n'].intercalate (lines.dropWhile List.isEmpty)).length ≤
      (['\n'].intercalate lines).length := by
  induction lines with
  | nil => exact Nat.le_refl _
  | cons line lines ih =>
    cases line with
    | nil =>
      rw [List.dropWhile_cons_of_pos rfl]
      cases lines with
      | nil => simp
      | cons next lines =>
        rw [List.intercalate_cons_cons, List.length_append]
        exact Nat.le_add_left_of_le ih
    | cons c line => rw [List.dropWhile_cons_of_neg (by simp)]

/-- Joining the lines again gives the page back, unless it begins with an empty line. -/
theorem intercalate_dropWhile_iff (page : List Char) :
    ['\n'].intercalate ((page.splitOn '\n').dropWhile List.isEmpty) = page ↔
      page.head? ≠ some '\n' := by
  cases page with
  | nil => simp [List.splitOn_nil]
  | cons c page =>
    by_cases hc : c = '\n'
    · subst hc
      have hsplit : ('\n' :: page).splitOn '\n' = [] :: page.splitOn '\n' :=
        splitOn_append_sep (List.not_mem_nil)
      have hle := length_intercalate_dropWhile_le (page.splitOn '\n')
      rw [List.intercalate_splitOn] at hle
      rw [hsplit, List.dropWhile_cons_of_pos rfl]
      refine iff_of_false (fun h => ?_) (by simp)
      have hlength := congrArg List.length h
      rw [List.length_cons] at hlength
      omega
    · refine iff_of_true ?_ (by simpa using hc)
      have hjoin : ['\n'].intercalate ((c :: page).splitOn '\n') = c :: page :=
        List.intercalate_splitOn '\n'
      obtain ⟨line, lines, hpage⟩ := List.exists_cons_of_ne_nil (List.splitOn_ne_nil '\n' page)
      have hsplit : (c :: page).splitOn '\n' = (c :: line) :: lines := by
        rw [List.splitOn_cons_eq_if_modifyHead, if_neg (by simpa using hc), hpage]
        rfl
      rw [hsplit] at hjoin ⊢
      rw [List.dropWhile_cons_of_neg (by simp), hjoin]

theorem json_eq (call : LogCall) :
    call.json.toList = '{' :: (Json.members call.entry ++ ['}']) := String.toList_ofList

theorem newline_not_mem_json (call : LogCall) : '\n' ∉ call.json.toList := by
  intro h
  rw [json_eq, List.mem_cons, List.mem_append, List.mem_singleton] at h
  rcases h with h | h | h
  · exact absurd h (by decide)
  · exact absurd (Json.not_control_of_mem_members h) (by decide)
  · exact absurd h (by decide)

theorem trim_json (call : LogCall) : trim call.json = call.json := by
  rw [trim_eq, json_eq, trimChars_eq (by decide) (by decide), ← json_eq, String.ofList_toList]

/-! ## outputs -/

namespace Output

/-- The characters of the log lines and of the texts behind them. -/
def chars (o : Output) : List (List Char × List Char) :=
  o.rest.map fun p => (p.1.json.toList, p.2.toList)

variable {o : Output}

theorem toList_text : o.text.toList = interleaved o.first.toList o.chars := by
  simp [text, interleaved, chars, turbineLog, List.flatMap_map]

theorem toList_page : o.page.toList = o.first.toList ++ o.chars.flatMap Prod.snd := by
  simp [page, chars, List.flatMap_map]

theorem before_chars : Features.before o.first.toList o.chars = o.before.map String.toList := by
  simp [Features.before, Output.before, chars, List.map_dropLast, Function.comp_def]

theorem unmarked_chars :
    ∀ seg ∈ o.first.toList :: o.chars.map Prod.snd, ¬ turbineLogMarker.toList <:+: seg := by
  have hsegs : o.first.toList :: o.chars.map Prod.snd =
      (o.first :: o.rest.map Prod.snd).map String.toList := by
    simp [chars]
  rw [hsegs, List.forall_mem_map]
  intro seg hseg
  rw [← occursIn_iff, ← containsStr, o.unmarked seg hseg]
  exact Bool.false_ne_true

theorem newline_not_mem_chars : ∀ p ∈ o.chars, '\n' ∉ p.1 :=
  List.forall_mem_map.2 fun p _ => newline_not_mem_json p.1

/-- With a log line in it, the output is taken apart. -/
theorem extract_text (h : o.rest ≠ []) :
    extractStructuredLogs (utf8 o.text) =
      (encodeChars (['\n'].intercalate
          (((o.text.toList.splitOn '\n').filter isText).dropWhile List.isEmpty)),
        entriesOf (logTexts (o.text.toList.splitOn '\n'))) := by
  have hmarked : containsStr o.text turbineLogMarker = true := by
    obtain ⟨p, rest, hrest⟩ := List.exists_cons_of_ne_nil h
    rw [containsStr, occursIn_iff, toList_text, chars, hrest, List.map_cons, interleaved_cons,
      ← List.append_assoc, ← List.append_assoc, List.append_assoc]
    exact List.infix_append _ _ _
  rw [extractStructuredLogs, fromUtf8_utf8]
  dsimp only
  rw [if_pos hmarked, split, foldl_extractLine, List.nil_append]

theorem intact_of_nil (h : o.rest = []) : o.Intact := by
  have htext : o.text = o.first := by simp [text, h]
  have hpage : o.page = o.first := by simp [page, h]
  have hunmarked := o.unmarked o.first List.mem_cons_self
  refine ⟨[], ?_, by rw [h]; rfl⟩
  rw [htext, hpage, extractStructuredLogs, fromUtf8_utf8]
  dsimp only
  rw [if_neg (by rw [hunmarked]; exact Bool.false_ne_true)]

/-- The entries that are found are at most as many as the log lines that stand where a line
begins. -/
theorem length_entries_le :
    (entriesOf (logTexts (o.text.toList.splitOn '\n'))).length ≤
      o.before.countP fun seg => EndsLine seg.toList := by
  have hfound := length_logTexts o.unmarked_chars o.newline_not_mem_chars
  rw [before_chars, List.countP_map, ← toList_text] at hfound
  exact (List.length_filterMap_le _ _).trans (Nat.le_of_eq hfound)

theorem length_before : o.before.length = o.rest.length := by
  simp [before]

end Output

/-- If every log line stands where a line begins, the entries are those of the lines, and only
a newline at the beginning of the page is lost. -/
theorem extract_of_endsLine (o : Output) (hrest : o.rest ≠ [])
    (hends : ∀ seg ∈ o.before, EndsLine seg.toList) :
    (extractStructuredLogs (utf8 o.text)).2 = (o.rest.filterMap fun p => parseLogJson p.1.json) ∧
      ((extractStructuredLogs (utf8 o.text)).1 = utf8 o.page ↔
        o.page.toList.head? ≠ some '\n') := by
  have hends' : ∀ seg ∈ before o.first.toList o.chars, EndsLine seg := by
    rw [o.before_chars, List.forall_mem_map]
    exact hends
  obtain ⟨hlogs, hlines⟩ := lines_interleaved o.unmarked_chars o.newline_not_mem_chars hends'
  rw [← o.toList_text] at hlogs hlines
  rw [← o.toList_page] at hlines
  rw [o.extract_text hrest, hlogs, hlines]
  refine ⟨?_, ?_⟩
  · simp [entriesOf, Output.chars, List.filterMap_map, Function.comp_def, trim_json]
  · rw [← intercalate_dropWhile_iff, utf8]
    exact ⟨fun h => by simpa [lossyChars_encodeChars] using congrArg lossyChars h,
      fun h => congrArg encodeChars h⟩

end Turbine.Features
