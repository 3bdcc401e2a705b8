import Turbine.Http.Accept

/-!
# Turbine.Server.Compression

`negotiate_compression`: the first coding of the server's list whose name occurs in the
text of the `Accept-Encoding` header.

* `negotiateCompression_accepts_iff`: it returns a coding that the header accepts iff the
  header accepts the first of the list whose letters occur in a name; and it returns one if
  the header wants one.
-/

namespace Turbine.Server

open Base Http

/-! ## the codecs -/

/-- The libraries; `none` is an error of theirs. -/
structure Codecs where
  gzip : Bytes → Nat → Option Bytes
  brotli : Bytes → Nat → Option Bytes
  zstd : Bytes → Nat → Option Bytes

def Codecs.gzipCompress (codecs : Codecs) (data : Bytes) (level : Nat) : Bytes :=
  (codecs.gzip data level).getD data

def Codecs.brotliCompress (codecs : Codecs) (data : Bytes) (level : Nat) : Bytes :=
  (codecs.brotli data (min level 11)).getD data

def Codecs.zstdCompress (codecs : Codecs) (data : Bytes) (level : Nat) : Bytes :=
  (codecs.zstd data (min level 19)).getD data

/-- `negotiate_compression`, of a header whose characters are ASCII. -/
def Codecs.negotiateCompression (codecs : Codecs) (acceptEncoding : String) (data : Bytes)
    (level : Nat) : List String → Option (String × Bytes)
  | [] => none
  | pref :: serverPrefs =>
    let ae := toAsciiLowercase acceptEncoding
    if pref = "br" ∧ containsStr ae "br" then some ("br", codecs.brotliCompress data level)
    else if pref = "zstd" ∧ containsStr ae "zstd" then
      some ("zstd", codecs.zstdCompress data level)
    else if pref = "gzip" ∧ containsStr ae "gzip" then
      some ("gzip", codecs.gzipCompress data level)
    else codecs.negotiateCompression acceptEncoding data level serverPrefs

/-! ## the negotiation -/

/-- The codings that the server can produce. -/
def supported : List String := ["br", "zstd", "gzip"]

/-- The codec of a supported coding. -/
def Codecs.encode (codecs : Codecs) (data : Bytes) (level : Nat) (coding : String) : Bytes :=
  if coding = "br" then codecs.brotliCompress data level
  else if coding = "zstd" then codecs.zstdCompress data level
  else codecs.gzipCompress data level

section Negotiation

variable {codecs : Codecs} {data : Bytes} {level : Nat} {coding : String}

theorem negotiateCompression_eq (acceptEncoding : String) (serverPrefs : List String) :
    codecs.negotiateCompression acceptEncoding data level serverPrefs =
      (serverPrefs.find? fun pref =>
        pref ∈ supported ∧ containsStr (toAsciiLowercase acceptEncoding) pref).map fun pref =>
          (pref, codecs.encode data level pref) := by
  induction serverPrefs with
  | nil => rfl
  | cons pref serverPrefs ih =>
    by_cases hpref : pref ∈ supported ∧ containsStr (toAsciiLowercase acceptEncoding) pref = true
    · rw [List.find?_cons_of_pos (by simpa using hpref), Option.map_some]
      obtain ⟨hsupported, hcontains⟩ := hpref
      obtain rfl | rfl | rfl : pref = "br" ∨ pref = "zstd" ∨ pref = "gzip" := by
        simpa [supported] using hsupported
      all_goals simp [Codecs.negotiateCompression, Codecs.encode, hcontains]
    · have hother : ∀ name ∈ supported,
          ¬ (pref = name ∧ containsStr (toAsciiLowercase acceptEncoding) name = true) := by
        rintro name hname ⟨rfl, hcontains⟩
        exact hpref ⟨hname, hcontains⟩
      rw [List.find?_cons_of_neg (by simpa using hpref), ← ih, Codecs.negotiateCompression,
        if_neg (hother "br" (by decide)), if_neg (hother "zstd" (by decide)),
        if_neg (hother "gzip" (by decide))]

/-- The names of the supported codings are in lower case, and have none of the characters
between the codings of a header. -/
theorem supported_letters (h : coding ∈ supported) :
    lowerChars coding = coding.toList ∧ lowerChars coding ≠ [] ∧
      ∀ c ∈ separators, c ∉ lowerChars coding := by
  have hall : (supported.all fun name => lowerChars name = name.toList && lowerChars name ≠ [] &&
      separators.all fun c => !(lowerChars name).contains c) = true := by decide
  simpa [and_assoc] using List.all_eq_true.1 hall coding h

theorem containsStr_value_iff (h : AcceptEncoding) (hcoding : coding ∈ supported) :
    containsStr (toAsciiLowercase h.value) coding = true ↔ h.Mentions coding := by
  obtain ⟨hlower, hne, hletters⟩ := supported_letters hcoding
  rw [← h.contains_value_iff hne hletters, contains_iff, containsStr, occursIn_iff, hlower,
    toAsciiLowercase, String.toList_ofList]
  rfl

theorem negotiateCompression_eq_some {acceptEncoding : String} {serverPrefs : List String}
    {out : Bytes} (hout : codecs.negotiateCompression acceptEncoding data level serverPrefs =
      some (coding, out)) :
    coding ∈ supported ∧ containsStr (toAsciiLowercase acceptEncoding) coding = true ∧
      out = codecs.encode data level coding := by
  rw [negotiateCompression_eq, Option.map_eq_some_iff] at hout
  obtain ⟨pref, hfind, hpair⟩ := hout
  obtain ⟨rfl, rfl⟩ := Prod.mk.inj hpair
  obtain ⟨hsupported, hcontains⟩ : pref ∈ supported ∧
      containsStr (toAsciiLowercase acceptEncoding) pref = true := by
    simpa using List.find?_some hfind
  exact ⟨hsupported, hcontains, rfl⟩

/-- The search, on a header in the grammar. -/
theorem negotiateCompression_value (h : AcceptEncoding) (serverPrefs : List String) :
    codecs.negotiateCompression h.value data level serverPrefs =
      (serverPrefs.find? fun pref => pref ∈ supported ∧ h.Mentions pref).map fun pref =>
        (pref, codecs.encode data level pref) := by
  have htest : (fun pref => decide (pref ∈ supported ∧
      containsStr (toAsciiLowercase h.value) pref = true)) =
        fun pref => decide (pref ∈ supported ∧ h.Mentions pref) := by
    funext pref
    exact decide_eq_decide.2 (and_congr_right (containsStr_value_iff h))
  rw [negotiateCompression_eq, htest]

end Negotiation

/-- For every header and every list of the server's: what is returned is accepted iff the
header accepts the first supported coding of the list of which it has the letters in some
name; and a coding that the header wants is never missed. -/
theorem negotiateCompression_accepts_iff (codecs : Codecs) (h : AcceptEncoding)
    (serverPrefs : List String) (data : Bytes) (level : Nat) :
    ((∀ coding out,
        codecs.negotiateCompression h.value data level serverPrefs = some (coding, out) →
          h.Accepts coding) ↔
      ∀ coding ∈ serverPrefs.find? fun pref => pref ∈ supported ∧ h.Mentions pref,
        h.Accepts coding) ∧
    ((∃ coding ∈ serverPrefs, coding ∈ supported ∧ h.Wants coding) →
      (codecs.negotiateCompression h.value data level serverPrefs).isSome = true) := by
  rw [negotiateCompression_value]
  refine ⟨⟨fun hall coding hfirst => ?_, fun hall coding out hout => ?_⟩, fun hwants => ?_⟩
  · exact hall coding _ (Option.map_eq_some_iff.2 ⟨coding, hfirst, rfl⟩)
  · obtain ⟨pref, hfirst, hpair⟩ := Option.map_eq_some_iff.1 hout
    obtain ⟨rfl, -⟩ := Prod.mk.inj hpair
    exact hall pref hfirst
  · obtain ⟨coding, hmem, hcoding, hwants⟩ := hwants
    rw [Option.isSome_map, List.find?_isSome]
    exact ⟨coding, hmem, decide_eq_true ⟨hcoding, AcceptEncoding.mentions_of_wants hwants⟩⟩

theorem isToken_gzip : isToken "gzip" = true := by decide

/-- `gzip;q=0`: the client refuses the coding. -/
def refusingGzip : AcceptEncoding :=
  let weight : Weight := ⟨.none, .none, false, .zero⟩
  ⟨[⟨.none, some ⟨"gzip", isToken_gzip, some weight⟩, .none⟩]⟩

/-- Libraries that leave the data as they are. -/
def storing : Codecs := ⟨fun data _ => some data, fun data _ => some data, fun data _ => some data⟩

theorem negotiateCompression_refused :
    refusingGzip.value = "gzip;q=0" ∧ ¬ refusingGzip.Accepts "gzip" ∧
      storing.negotiateCompression refusingGzip.value [104, 105] 6 ["br", "gzip"] =
        some ("gzip", [104, 105]) := by
  exact ⟨by decide, by decide, by decide⟩

end Turbine.Server
