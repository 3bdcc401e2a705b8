import Mathlib.Data.List.DropRight
import Turbine.Base.Separators
import Turbine.Server.Forward

/-!
# Turbine.Server.Cookies

The cookies of a request.  `from_hyper` collects the header fields that are visible ASCII
in a map before the cookies are parsed, so of several such `Cookie` fields the last one
stays.

* `cookies_kept_iff`: when no cookie is dropped.
-/

namespace Turbine.Server

open Base Http

/-! ## cookies of a header -/

/-- A cookie, from a piece of the header between semicolons. -/
def cookieOf (piece : List Char) : Option (String × String) :=
  (splitOnce (trim (String.ofList piece)) '=').map fun p =>
    (urlDecode (trim p.1), urlDecode (trim p.2))

/-- The `name=value` pairs of a header. -/
def cookiePairs (header : String) : List (String × String) :=
  (header.toList.splitOn ';').filterMap cookieOf

theorem parseCookieHeader_eq (header : String) :
    parseCookieHeader header = collectEntries (cookiePairs header) := by
  rw [parseCookieHeader, split, List.filterMap_map, cookiePairs]
  refine congrArg collectEntries (List.filterMap_congr fun piece _ => ?_)
  rw [Function.comp_apply, cookieOf]

/-- A space in front does not count. -/
theorem cookieOf_space (piece : List Char) : cookieOf (' ' :: piece) = cookieOf piece := by
  have htrim : trim (String.ofList (' ' :: piece)) = trim (String.ofList piece) := by
    have hspace : isWhitespace ' ' = true := by decide
    simp [trim_eq, trimChars, hspace]
  rw [cookieOf, htrim, cookieOf]

theorem filterMap_cookieOf_space (cs : List Char) :
    ((' ' :: cs).splitOn ';').filterMap cookieOf = (cs.splitOn ';').filterMap cookieOf := by
  obtain ⟨piece, pieces, hcs⟩ := List.exists_cons_of_ne_nil (List.splitOn_ne_nil ';' cs)
  have hsplit : (' ' :: cs).splitOn ';' = (' ' :: piece) :: pieces := by
    rw [List.splitOn_cons_eq_if_modifyHead, hcs]
    rfl
  rw [hsplit, hcs, List.filterMap_cons, List.filterMap_cons, cookieOf_space]

theorem cookiePairs_intercalate (values : List String) :
    cookiePairs (String.intercalate "; " values) = values.flatMap cookiePairs := by
  have hcookie : ∀ cs : List Char, cookiePairs (String.ofList cs) =
      (cs.splitOn ';').filterMap cookieOf := by
    intro cs
    rw [cookiePairs, String.toList_ofList]
  rw [cookiePairs, String.toList_intercalate]
  induction values with
  | nil => rfl
  | cons value values ih =>
    cases values with
    | nil => simp [cookiePairs]
    | cons next values =>
      have hjoin : "; ".toList.intercalate ((value :: next :: values).map String.toList) =
          value.toList ++ ';' :: ' ' ::
            "; ".toList.intercalate ((next :: values).map String.toList) := by
        simp [List.intercalate_cons_cons]
      have happend (xs ys : List Char) :
          (xs ++ ';' :: ys).splitOn ';' = xs.splitOn ';' ++ ys.splitOn ';' :=
        List.splitOnP_append_cons xs ys (by decide)
      rw [hjoin, happend, List.filterMap_append, filterMap_cookieOf_space, ih, List.flatMap_cons]
      rfl

/-! ## the header that stays -/

/-- The values of the `Cookie` fields, in order. -/
def cookieFields (req : Incoming) : List Bytes :=
  (req.headers.filter fun h => toAsciiLowercase h.1 = "cookie").map (·.2)

/-- The field cannot be read as a text. -/
def Unreadable (field : Bytes) : Bool := (valueToStr field).isNone

/-- The fields up to the last one that can be read. -/
def heardFields (req : Incoming) : List Bytes := (cookieFields req).rdropWhile Unreadable

/-- The fields behind that one. -/
def unheardFields (req : Incoming) : List Bytes := (cookieFields req).rtakeWhile Unreadable

/-- The cookies of a field, with ill-formed bytes replaced. -/
def fieldPairs (field : Bytes) : List (String × String) := cookiePairs (fromUtf8Lossy field)

/-- A value that is visible ASCII is what its bytes say. -/
theorem fromUtf8Lossy_of_valueToStr {value : Bytes} {s : String}
    (h : valueToStr value = some s) : fromUtf8Lossy value = s := by
  rw [valueToStr, Option.ite_none_right_eq_some, Option.some.injEq] at h
  obtain ⟨hvisible, rfl⟩ := h
  have hbytes : encodeChars (value.map fun b => Char.ofNat b.toNat) = value := by
    induction value with
    | nil => rfl
    | cons b value ih =>
      simp only [List.all_cons, Bool.and_eq_true, Bool.or_eq_true, decide_eq_true_eq] at hvisible
      obtain ⟨hb, hvalue⟩ := hvisible
      have hlt : b.toNat < 0x80 := by
        obtain ⟨-, hb⟩ | rfl := hb
        · exact Nat.lt_trans (UInt8.lt_iff_toNat_lt.1 hb) (by decide)
        · decide
      have hall : ∀ n < 0x80, (Char.ofNat n).toNat = n := by decide
      have hchar := hall b.toNat hlt
      rw [List.map_cons, encodeChars_cons, utf8EncodeChar_of_ascii (by omega), hchar,
        UInt8.ofNat_toNat, ih hvalue, List.singleton_append]
  rw [fromUtf8Lossy, ← hbytes, lossyChars_encodeChars, hbytes]

variable {ucfg : UploadConfig} {multer : Multer} {maxBody : Option Nat} {req : Incoming}

/-- The headers of a request, and the cookies, which come from one of them. -/
theorem headers_of_fromHyper {r : FullHttpRequest}
    (h : FullHttpRequest.fromHyper ucfg multer maxBody req = .ok r) :
    r.headers = collectEntries (req.headers.filterMap fun h =>
        (valueToStr h.2).map fun value => (toAsciiLowercase h.1, value)) ∧
      r.cookies = ((lookupEntry "cookie" r.headers).map parseCookieHeader).getD [] := by
  unfold FullHttpRequest.fromHyper at h
  dsimp only at h
  split at h
  · cases h
  · cases hbody : readBody maxBody [] req.frames with
    | error e =>
      rw [hbody] at h
      cases h
    | ok body =>
      rw [hbody] at h
      cases h
      exact ⟨rfl, rfl⟩

theorem getLast?_filterMap_valueToStr (fields : List Bytes) :
    (fields.filterMap valueToStr).getLast? =
      (fields.rdropWhile Unreadable).getLast?.map fromUtf8Lossy := by
  induction fields using List.reverseRecOn with
  | nil => rfl
  | append_singleton fields field ih =>
    cases hfield : valueToStr field with
    | none =>
      have hunreadable : Unreadable field = true := by simp [Unreadable, hfield]
      rw [List.rdropWhile_concat_pos _ _ _ hunreadable, ← ih, List.filterMap_append]
      simp [hfield]
    | some s =>
      have hreadable : ¬ Unreadable field = true := by simp [Unreadable, hfield]
      rw [List.rdropWhile_concat_neg _ _ _ hreadable, List.filterMap_append]
      simp [hfield, fromUtf8Lossy_of_valueToStr hfield]

/-- Of all `Cookie` fields the last one that can be read stays. -/
theorem lookup_cookie {r : FullHttpRequest}
    (h : FullHttpRequest.fromHyper ucfg multer maxBody req = .ok r) :
    lookupEntry "cookie" r.headers = (heardFields req).getLast?.map fromUtf8Lossy := by
  have hcookie : ∀ headers : List (String × Bytes),
      ((headers.filterMap fun h => (valueToStr h.2).map fun value =>
        (toAsciiLowercase h.1, value)).filter (·.1 = "cookie")).map (·.2) =
      ((headers.filter fun h => toAsciiLowercase h.1 = "cookie").map (·.2)).filterMap
        valueToStr := by
    intro headers
    induction headers with
    | nil => rfl
    | cons h headers ih =>
      obtain ⟨name, value⟩ := h
      by_cases hname : toAsciiLowercase name = "cookie" <;>
        cases hvalue : valueToStr value <;> simp [hname, hvalue, ih]
  rw [(headers_of_fromHyper h).1, lookupEntry_collectEntries, lastValue, ← List.getLast?_map,
    hcookie, ← cookieFields, getLast?_filterMap_valueToStr, heardFields]

/-- The string that is forwarded to the workers. -/
theorem cookieHeader_eq {q : Ready}
    (h : FullHttpRequest.fromHyper ucfg multer maxBody req = .ok q.request) :
    q.cookieHeader = ((heardFields req).getLast?.map fromUtf8Lossy).getD "" := by
  rw [Ready.cookieHeader, lookup_cookie h]

/-- The cookies are those of that string. -/
theorem cookies_eq {q : Ready}
    (h : FullHttpRequest.fromHyper ucfg multer maxBody req = .ok q.request) :
    q.request.cookies = parseCookieHeader q.cookieHeader := by
  rw [(headers_of_fromHyper h).2, Ready.cookieHeader]
  cases lookupEntry "cookie" q.request.headers with
  | none => rfl
  | some value => rfl

/-! ## dropped cookies -/

/-- The string that is forwarded and the map have the cookies of all fields, as if these
had been joined, a later one in place of an earlier one of the same name.  Ill-formed bytes
are read as replacement characters. -/
def KeepsCookies (q : Ready) (fields : List Bytes) : Prop :=
  ∀ name,
    lookupEntry name (parseCookieHeader q.cookieHeader) =
        lookupEntry name
          (parseCookieHeader (String.intercalate "; " (fields.map fromUtf8Lossy))) ∧
      lookupEntry name q.request.cookies =
        lookupEntry name (parseCookieHeader (String.intercalate "; " (fields.map fromUtf8Lossy)))

/-- Pairs in front make no difference iff all their names come again, nor do pairs behind iff
the last value of each of their names was set before. -/
theorem lastValue_between_eq_iff (pairs more behind : List (String × String)) :
    (∀ name, lastValue name more = lastValue name (pairs ++ more ++ behind)) ↔
      (∀ pair ∈ pairs, ∃ pair' ∈ more, pair'.1 = pair.1) ∧
        ∀ name value, lastValue name behind = some value → lastValue name more = some value := by
  have hnames : (∀ pair ∈ pairs, ∃ pair' ∈ more, pair'.1 = pair.1) ↔
      ∀ name, lastValue name more = none → lastValue name pairs = none := by
    simp only [lastValue_eq_none_iff]
    constructor
    · intro h name hmore p hp heq
      obtain ⟨p', hp', hsame⟩ := h p hp
      exact hmore p' hp' (hsame.trans heq)
    · intro h pair hpair
      by_contra hnone
      exact h pair.1 (fun p hp heq => hnone ⟨p, hp, heq⟩) pair hpair rfl
  rw [hnames, ← forall_and]
  refine forall_congr' fun name => ?_
  rw [lastValue_append, lastValue_append]
  cases lastValue name behind <;> cases lastValue name more <;> simp [eq_comm]

/-- For every request and all its `Cookie` fields, whatever their bytes: no cookie is dropped
iff the last field that can be read has all names of the fields before it, and for every name
that is set behind it, the value that is set there last. -/
theorem cookies_kept_iff (ucfg : UploadConfig) (multer : Multer) (maxBody : Option Nat)
    (req : Incoming) (q : Ready)
    (h : FullHttpRequest.fromHyper ucfg multer maxBody req = .ok q.request) :
    KeepsCookies q (cookieFields req) ↔
      (∀ field ∈ (heardFields req).dropLast, ∀ pair ∈ fieldPairs field,
        ∃ last ∈ (heardFields req).getLast?, ∃ pair' ∈ fieldPairs last, pair'.1 = pair.1) ∧
      ∀ name value, lastValue name ((unheardFields req).flatMap fieldPairs) = some value →
        ∃ last ∈ (heardFields req).getLast?, lastValue name (fieldPairs last) = some value := by
  have hjoined : cookiePairs (String.intercalate "; " ((cookieFields req).map fromUtf8Lossy)) =
      (heardFields req).flatMap fieldPairs ++ (unheardFields req).flatMap fieldPairs := by
    rw [cookiePairs_intercalate, List.flatMap_map, ← List.flatMap_append, heardFields,
      unheardFields, List.rdropWhile_append_rtakeWhile]
    rfl
  rw [KeepsCookies, cookies_eq h, cookieHeader_eq h]
  simp only [and_self, parseCookieHeader_eq, lookupEntry_collectEntries, hjoined]
  obtain hnil | ⟨front, last, hlast⟩ := List.eq_nil_or_concat (heardFields req)
  · have hnone : cookiePairs "" = [] := by decide
    have hiff := lastValue_between_eq_iff [] [] ((unheardFields req).flatMap fieldPairs)
    rw [hnil]
    simpa [hnone, lastValue] using hiff
  · have hiff := lastValue_between_eq_iff (front.flatMap fieldPairs) (fieldPairs last)
      ((unheardFields req).flatMap fieldPairs)
    rw [hlast, List.concat_eq_append, List.getLast?_concat, List.dropLast_concat,
      List.flatMap_append, List.flatMap_singleton, Option.map_some, Option.getD_some]
    refine hiff.trans (and_congr ?_ (by simp))
    simp only [List.mem_flatMap, forall_exists_index, and_imp, Option.mem_def, Option.some.injEq,
      exists_eq_left']
    exact ⟨fun hnames field hfield pair hpair => hnames pair field hfield hpair,
      fun hnames pair field hfield hpair => hnames field hfield pair hpair⟩

/-! ## two fields -/

/-- A request with the given `Cookie` fields. -/
def cookieIncoming (fields : List Bytes) : Incoming where
  method := "GET"
  path := "/"
  query := none
  version := "HTTP/2.0"
  headers := fields.map fun field => ("cookie", field)
  frames := []

/-- The request as the handler has it, with the last field. -/
def cookieReady (header : String) : Ready where
  script := ⟨⟨"/srv", "index.php", false⟩, "index.php", none⟩
  request :=
    { method := "GET"
      path := "/"
      queryString := ""
      httpVersion := "HTTP/2.0"
      headers := [("cookie", header)]
      cookies := parseCookieHeader header
      body := []
      contentType := none
      contentLength := none
      files := []
      multipartPostParams := [] }
  clientIp := "127.0.0.1"

theorem fromHyper_cookieIncoming (field : Bytes) {last : Bytes} {header : String}
    (hlast : valueToStr last = some header) :
    FullHttpRequest.fromHyper phpBlocked shellMulter none (cookieIncoming [field, last]) =
      .ok (cookieReady header).request := by
  have hheaders : collectEntries ((cookieIncoming [field, last]).headers.filterMap fun h =>
      (valueToStr h.2).map fun value => (toAsciiLowercase h.1, value)) = [("cookie", header)] := by
    have hname : toAsciiLowercase "cookie" = "cookie" := by decide
    cases hfield : valueToStr field <;>
      simp [cookieIncoming, hfield, hlast, hname, collectEntries, insertEntry]
  rw [FullHttpRequest.fromHyper, hheaders]
  rfl

/-- A field that sets all cookies again keeps them. -/
theorem cookies_kept_again :
    FullHttpRequest.fromHyper phpBlocked shellMulter none
        (cookieIncoming [utf8 "a=1", utf8 "a=1"]) = .ok (cookieReady "a=1").request ∧
      KeepsCookies (cookieReady "a=1") [utf8 "a=1", utf8 "a=1"] := by
  have hreq : FullHttpRequest.fromHyper phpBlocked shellMulter none
      (cookieIncoming [utf8 "a=1", utf8 "a=1"]) = .ok (cookieReady "a=1").request :=
    fromHyper_cookieIncoming _ (by decide)
  have hheard : heardFields (cookieIncoming [utf8 "a=1", utf8 "a=1"]) =
      [utf8 "a=1", utf8 "a=1"] := by decide
  have hunheard : unheardFields (cookieIncoming [utf8 "a=1", utf8 "a=1"]) = [] := by decide
  refine ⟨hreq, (cookies_kept_iff phpBlocked shellMulter none
    (cookieIncoming [utf8 "a=1", utf8 "a=1"]) (cookieReady "a=1") hreq).2 ⟨?_, ?_⟩⟩
  · rw [hheard]
    intro field hfield pair hpair
    obtain rfl := List.mem_singleton.1 hfield
    exact ⟨utf8 "a=1", rfl, pair, hpair, rfl⟩
  · rw [hunheard]
    intro name value hvalue
    cases hvalue

theorem urlDecode_of_plain {s : String} (h : urlDecodeBytes (utf8 s) = utf8 s) :
    urlDecode s = s := by
  rw [urlDecode, h, fromUtf8Lossy_utf8]

theorem cookiePairs_two : cookiePairs "a=1; b=2" = [("a", "1"), ("b", "2")] := by
  change [(urlDecode "a", urlDecode "1"), (urlDecode "b", urlDecode "2")] = _
  rw [urlDecode_of_plain (by decide), urlDecode_of_plain (by decide),
    urlDecode_of_plain (by decide), urlDecode_of_plain (by decide)]

/-- Of two fields the first is dropped. -/
theorem first_cookie_dropped :
    FullHttpRequest.fromHyper phpBlocked shellMulter none (cookieIncoming [utf8 "a=1", utf8 "b=2"]) =
        .ok (cookieReady "b=2").request ∧
      (cookieReady "b=2").cookieHeader = "b=2" ∧
      lookupEntry "a" (cookieReady "b=2").request.cookies = none ∧
      lookupEntry "a" (parseCookieHeader (String.intercalate "; " ["a=1", "b=2"])) = some "1" := by
  have hjoined : String.intercalate "; " ["a=1", "b=2"] = "a=1; b=2" := by decide
  have hlast : cookiePairs "b=2" = [("b", "2")] := by
    change [(urlDecode "b", urlDecode "2")] = _
    rw [urlDecode_of_plain (by decide), urlDecode_of_plain (by decide)]
  refine ⟨fromHyper_cookieIncoming _ (by decide), rfl, ?_, ?_⟩
  · change lookupEntry "a" (parseCookieHeader "b=2") = none
    rw [parseCookieHeader_eq, hlast]
    decide
  · rw [hjoined, parseCookieHeader_eq, cookiePairs_two]
    decide

end Turbine.Server
