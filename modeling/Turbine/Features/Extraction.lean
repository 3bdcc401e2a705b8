import Turbine.Features.LogFields

/-!
# Turbine.Features.Extraction

Which log lines `extract_structured_logs` makes an entry of, by the texts of the call.  Every
text that ends with a backslash turns the quotes behind it inside out: then the commas between
the members end no field any more, and those in the texts do.

* `parse_isSome_iff`: there is an entry iff the last field for the message has a value;
* `extract_intact_iff`: when the page is left as it was, with an entry for each line.
-/

namespace Turbine.Features

open Base Json

/-! ## fields by the texts -/

/-- The text ends with a backslash. -/
def flips (text : String) : Bool := text.toList.getLast? == some '\\'

/-- The characters of a text between its quotes, for which `none` stands, and whether a field
ends there: at the commas, if the quotes are inside out. -/
def quotedMarks (odd : Bool) (text : String) : List (Option Char × Bool) :=
  (none, false) :: text.toList.map (fun c => (some c, odd && c == ',')) ++ [(none, false)]

/-- The members of an entry, each behind a comma, when an odd number of the texts before them
end with a backslash, or an even number. -/
def entryMarks (odd : Bool) : List (String × String) → List (Option Char × Bool)
  | [] => []
  | (key, value) :: entry =>
    (some ',', !odd) :: quotedMarks odd key ++
      (some ':', false) :: quotedMarks (odd ^^ flips key) value ++
        entryMarks (odd ^^ flips key ^^ flips value) entry

/-- The fields, when the marks of the first one so far are `field`. -/
def cutMarks (field : List (Option Char)) : List (Option Char × Bool) → List (List (Option Char))
  | [] => [field]
  | (m, ends) :: marks =>
    if ends then field :: cutMarks [] marks else cutMarks (field ++ [m]) marks

/-- Without the marks around it that are `m`. -/
def strip (m : Option Char) (marks : List (Option Char)) : List (Option Char) :=
  (marks.dropWhile (· == m)).rdropWhile (· == m)

/-- Without spaces and quotes around it. -/
def bare (marks : List (Option Char)) : List (Option Char) := strip none (strip (some ' ') marks)

/-- Whether a field for the message has a value. -/
def messageIn (field : List (Option Char)) : Option Bool :=
  (cutOnce (some ':') field).bind fun p =>
    if bare p.1 = "msg".toList.map some ∨ bare p.1 = "message".toList.map some then
      some (bare p.2 != [])
    else none

/-- The last field for the message has a value. -/
def LogCall.Heard (call : LogCall) : Prop :=
  ((cutMarks [] (entryMarks false call.entry)).filterMap messageIn).getLast? = some true

instance {call : LogCall} : Decidable call.Heard := inferInstanceAs (Decidable (_ = some true))

/-! ## the text of marks -/

/-- A mark in JSON. -/
def markText : Option Char → List Char
  | none => ['"']
  | some c => encodeChar c

def rawText (marks : List (Option Char)) : List Char := marks.flatMap markText

variable {q : Bool} {prev : Option Char} {text rest : List Char} {marks : List (Option Char × Bool)}
  {ms : List (Option Char)} {m : Option Char} {c : Char} {cs : List Char}

theorem rawText_append (ms ms' : List (Option Char)) :
    rawText (ms ++ ms') = rawText ms ++ rawText ms' := List.flatMap_append

theorem rawText_concat (ms : List (Option Char)) (m : Option Char) :
    rawText (ms ++ [m]) = rawText ms ++ markText m := by
  rw [rawText_append, rawText, rawText, List.flatMap_singleton]

/-- The scan of the text makes the fields that the marks make. -/
def Agree (q : Bool) (prev : Option Char) (text : List Char) (marks : List (Option Char × Bool)) :
    Prop :=
  ∀ field, (scanFields q prev (rawText field) text).filterMap fieldOf =
    ((cutMarks field marks).map rawText).filterMap fieldOf

theorem fieldOf_nil : fieldOf [] = none := by decide

theorem agree_nil : Agree q prev [] [] := by
  intro field
  rw [scanFields, cutMarks]
  split
  case isTrue h => simp [List.isEmpty_iff.1 h, fieldOf_nil]
  case isFalse => rfl

theorem Agree.keep {q' : Bool} {prev' : Option Char} (h : Agree q' prev' rest marks)
    (hscan : ∀ field, scanFields q prev field text = scanFields q' prev' (field ++ markText m) rest) :
    Agree q prev text ((m, false) :: marks) := by
  intro field
  rw [hscan, ← rawText_concat]
  exact h (field ++ [m])

theorem Agree.char (h : Agree q (encodeChar c).getLast? rest marks) :
    Agree q prev (encodeChar c ++ rest) ((some c, !q && c == ',') :: marks) := by
  by_cases hcut : c = ',' ∧ q = false
  · obtain ⟨rfl, rfl⟩ := hcut
    intro field
    have hnext : (scanFields false (some ',') [] rest).filterMap fieldOf =
        ((cutMarks [] marks).map rawText).filterMap fieldOf := h []
    have hscan : scanFields false prev (rawText field) (encodeChar ',' ++ rest) =
        rawText field :: scanFields false (some ',') [] rest := scanFields_comma
    rw [hscan, List.filterMap_cons, hnext, ← List.filterMap_cons]
    rfl
  · have hflag : (!q && c == ',') = false := by simpa [and_comm] using hcut
    rw [hflag]
    exact h.keep fun field => scanFields_encodeChar (by simpa [imp_iff_not_or] using hcut)

/-- A quote counts unless it stands behind a backslash. -/
theorem Agree.quote (h : Agree (q ^^ (prev != some '\\')) (some '"') rest marks) :
    Agree q prev ('"' :: rest) ((none, false) :: marks) := by
  refine h.keep fun field => ?_
  by_cases hprev : prev = some '\\'
  · simpa [hprev, markText] using scanFields_other (.inr hprev) (.inl (by decide))
  · rw [bne_iff_ne.2 hprev, Bool.xor_true]
    exact scanFields_quote hprev

theorem Agree.chars (h : Agree q ((encodeText cs).getLast?.or prev) rest marks) :
    Agree q prev (encodeText cs ++ rest)
      (cs.map (fun c => (some c, !q && c == ',')) ++ marks) := by
  induction cs generalizing prev with
  | nil => simpa using h
  | cons c cs ih =>
    have hlast := List.getLast?_eq_some_getLast (encodeChar_ne_nil c)
    rw [encodeText_cons, List.append_assoc]
    refine Agree.char (ih ?_)
    rwa [encodeText_cons, List.getLast?_append, Option.or_assoc, hlast, Option.some_or,
      ← hlast] at h

theorem Agree.string {s : String} (hprev : prev ≠ some '\\')
    (h : Agree (q ^^ flips s) (some '"') rest marks) :
    Agree q prev (encodeString s ++ rest) (quotedMarks q s ++ marks) := by
  have hend : ((encodeText s.toList).getLast?.or (some '"') != some '\\') = !flips s := by
    have hlast := @getLast?_encodeText_iff s.toList '\\' (.inr rfl)
    rw [flips, bne]
    cases hget : (encodeText s.toList).getLast? with
    | none => simp_all
    | some d => simp_all
  have hclose : Agree (!q) ((encodeText s.toList).getLast?.or (some '"')) ('"' :: rest)
      ((none, false) :: marks) := by
    refine .quote ?_
    rwa [hend, Bool.not_xor_not]
  have hopen := hclose.chars
  rw [Bool.not_not] at hopen
  have hstring : Agree q prev ('"' :: (encodeText s.toList ++ '"' :: rest)) _ := .quote (by
    rw [bne_iff_ne.2 hprev, Bool.xor_true]
    exact hopen)
  simpa [encodeString, quotedMarks] using hstring

theorem agree_entry (entry : List (String × String)) :
    Agree q prev (entry.flatMap fun p => ',' :: member p) (entryMarks q entry) := by
  induction entry generalizing q prev with
  | nil => exact agree_nil
  | cons p entry ih =>
    have hvalue : Agree (q ^^ flips p.1) (some ':') (encodeString p.2 ++ _) _ :=
      ih.string (by decide)
    have hcolon : Agree (q ^^ flips p.1) (some '"') (':' :: _) _ := hvalue.char (c := ':')
    have hkey : Agree q (some ',') (encodeString p.1 ++ _) _ := hcolon.string (by decide)
    have hcomma : Agree q prev (',' :: _) _ := hkey.char (c := ',')
    simpa [entryMarks, member] using hcomma

/-! ## keys and values -/

section FlatMap

variable {α β : Type} {f : α → List β} {p : β → Bool} {r : α → Bool}

/-- Dropping marks is dropping their characters. -/
theorem dropWhile_flatMap (hdrop : ∀ a, r a = true → ∀ b ∈ f a, p b = true)
    (hkeep : ∀ a, r a = false → ∃ b more, f a = b :: more ∧ p b = false) (l : List α) :
    (l.flatMap f).dropWhile p = (l.dropWhile r).flatMap f := by
  induction l with
  | nil => rfl
  | cons a l ih =>
    rw [List.flatMap_cons]
    cases ha : r a with
    | true =>
      rw [List.dropWhile_append_of_pos (hdrop a ha), ih, List.dropWhile_cons_of_pos ha]
    | false =>
      obtain ⟨b, more, hb, hp⟩ := hkeep a ha
      rw [List.dropWhile_cons_of_neg (by simp [ha]), List.flatMap_cons, hb, List.cons_append,
        List.dropWhile_cons_of_neg (by simp [hp])]

theorem rdropWhile_flatMap (hdrop : ∀ a, r a = true → ∀ b ∈ f a, p b = true)
    (hkeep : ∀ a, r a = false → ∃ front b, f a = front ++ [b] ∧ p b = false) (l : List α) :
    (l.flatMap f).rdropWhile p = (l.rdropWhile r).flatMap f := by
  have hrev : ∀ a, r a = false → ∃ b more, (f a).reverse = b :: more ∧ p b = false := by
    intro a ha
    obtain ⟨front, b, hb, hp⟩ := hkeep a ha
    exact ⟨b, front.reverse, by simp [hb], hp⟩
  have h := dropWhile_flatMap (by simpa using hdrop) hrev l.reverse
  have hreverse : (l.flatMap f).reverse = l.reverse.flatMap fun a => (f a).reverse :=
    List.reverse_flatMap
  rw [List.rdropWhile, List.rdropWhile, hreverse, h, List.reverse_flatMap]
  simp [Function.comp_def]

end FlatMap

theorem isWhitespace_of_alphanum (h : c.isAlphanum = true) : isWhitespace c = false := by
  have hval : c.toNat = c.val.toNat := rfl
  delta Char.isAlphanum Char.isAlpha Char.isUpper Char.isLower Char.isDigit at h
  simp [UInt32.le_iff_toNat_le] at h
  simp [isWhitespace]
  omega

theorem isWhitespace_of_plain (h : IsPlain c) (hc : c ≠ ' ') : isWhitespace c = false := by
  have hspace : c.toNat ≠ 32 := fun h32 => hc (by rw [← Char.ofNat_toNat c, h32])
  have hlow := h.1
  have hhigh := h.2.1
  simp [isWhitespace]
  omega

/-- The first and the last character of a mark. -/
theorem markText_ends (m : Option Char) : ∃ first last front back,
    markText m = first :: back ∧ markText m = front ++ [last] ∧
      (m ≠ some ' ' → isWhitespace first = false ∧ isWhitespace last = false) ∧
      (m ≠ none → first ≠ '"') ∧ (m ≠ none → m ≠ some '"' → last ≠ '"') := by
  cases m with
  | none => exact ⟨'"', '"', [], [], rfl, rfl, by decide, by simp, by simp⟩
  | some c =>
    rcases encodeChar_cases c with
      ⟨hplain, hc⟩ | ⟨rfl, hc⟩ | ⟨rfl, hc⟩ | ⟨⟨-, hquote, -⟩, more, last, hc, -, hlast⟩
    · refine ⟨c, c, [], [], hc, hc, fun hne => ?_, fun _ => hplain.2.2.1, fun _ _ => hplain.2.2.1⟩
      have hw := isWhitespace_of_plain hplain fun h => hne (congrArg some h)
      exact ⟨hw, hw⟩
    · exact ⟨'\\', '"', ['\\'], ['"'], hc, hc, by decide, by decide, by simp⟩
    · exact ⟨'\\', '\\', ['\\'], ['\\'], hc, hc, by decide, by decide, by decide⟩
    · refine ⟨'\\', last, '\\' :: more, more ++ [last], hc, hc, fun _ => ⟨by decide, ?_⟩,
        fun _ => by decide, ?_⟩
      · exact isWhitespace_of_alphanum hlast
      · rintro - - rfl
        exact absurd hlast (by decide)

theorem trimChars_rawText (ms : List (Option Char)) :
    trimChars (rawText ms) = rawText (strip (some ' ') ms) := by
  have hdrop : ∀ m : Option Char, (m == some ' ') = true → ∀ d ∈ markText m,
      isWhitespace d = true := by
    intro m hm d hd
    rw [beq_iff_eq] at hm
    subst hm
    have hspace : markText (some ' ') = [' '] := by decide
    rw [hspace, List.mem_singleton] at hd
    subst hd
    decide
  rw [trimChars_eq_rdropWhile, rawText, dropWhile_flatMap hdrop, rdropWhile_flatMap hdrop]
  · rfl
  · intro m hm
    obtain ⟨first, last, front, back, -, hlast, hspace, -⟩ := markText_ends m
    exact ⟨front, last, hlast, (hspace (by simpa using hm)).2⟩
  · intro m hm
    obtain ⟨first, last, front, back, hfirst, -, hspace, -⟩ := markText_ends m
    exact ⟨first, back, hfirst, (hspace (by simpa using hm)).1⟩

theorem dropWhile_rawText (ms : List (Option Char)) :
    (rawText ms).dropWhile (· == '"') = rawText (ms.dropWhile (· == none)) := by
  refine dropWhile_flatMap (fun m hm d hd => ?_) (fun m hm => ?_) ms
  · rw [beq_iff_eq] at hm
    subst hm
    simpa [markText] using hd
  · obtain ⟨first, last, front, back, hfirst, -, -, hquote, -⟩ := markText_ends m
    exact ⟨first, back, hfirst, by simpa using hquote fun h => by simp [h] at hm⟩

theorem rawText_eq_iff (hcs : ∀ c ∈ cs, IsPlain c) : rawText ms = cs ↔ ms = cs.map some := by
  constructor
  · rintro rfl
    induction ms with
    | nil => rfl
    | cons m ms ih =>
      have htext : rawText (m :: ms) = markText m ++ rawText ms := List.flatMap_cons
      rw [htext] at hcs ⊢
      obtain ⟨hm, hms⟩ := List.forall_mem_append.1 hcs
      cases m with
      | none => exact absurd rfl (hm '"' List.mem_cons_self).2.2.1
      | some c =>
        rcases encodeChar_cases c with
          ⟨-, hc⟩ | ⟨-, hc⟩ | ⟨-, hc⟩ | ⟨-, more, last, hc, -⟩
        · rw [markText, hc, List.singleton_append, List.map_cons, ← ih hms]
        all_goals exact absurd rfl (hm '\\' (by simp [markText, hc])).2.2.2
  · rintro rfl
    have htext : rawText (cs.map some) = encodeText cs := List.flatMap_map ..
    rw [htext, encodeText_eq_iff.2 hcs]

theorem rdropWhile_rawText_iff (hcs : ∀ c ∈ cs, IsPlain c) :
    (rawText ms).rdropWhile (· == '"') = cs ↔ ms.rdropWhile (· == none) = cs.map some := by
  induction ms using List.reverseRecOn with
  | nil => cases cs <;> simp [rawText]
  | append_singleton ms m ih =>
    cases m with
    | none =>
      rw [rawText_concat, markText, List.rdropWhile_concat_pos _ _ _ (by rfl),
        List.rdropWhile_concat_pos _ _ _ (by rfl), ih]
    | some c =>
      rw [List.rdropWhile_concat_neg _ _ _ (by simp)]
      by_cases hc : c = '"'
      · -- a backslash is left of it
        have htext : rawText (ms ++ [some c]) = rawText ms ++ ['\\'] ++ ['"'] := by
          rw [rawText_concat, hc, List.append_assoc]
          rfl
        rw [htext, List.rdropWhile_concat_pos _ _ _ (by rfl),
          List.rdropWhile_concat_neg _ _ _ (by decide)]
        refine iff_of_false (fun h => ?_) (fun h => ?_)
        · exact absurd rfl (hcs '\\' (by simp [← h])).2.2.2
        · have hmem : some c ∈ cs.map some := by simp [← h]
          exact absurd hc (hcs c (by simpa using hmem)).2.2.1
      · obtain ⟨first, last, front, back, -, hlast, -, -, hquote⟩ := markText_ends (some c)
        have hne : last ≠ '"' := hquote (by simp) (by simpa using hc)
        rw [← rawText_eq_iff hcs, rawText_concat, hlast, ← List.append_assoc,
          List.rdropWhile_concat_neg _ _ _ (by simpa using hne)]

/-- A key or value in plain characters. -/
theorem unquote_rawText_iff (hcs : ∀ c ∈ cs, IsPlain c) :
    unquote (rawText ms) = cs ↔ bare ms = cs.map some := by
  rw [unquote, trimChars_rawText, dropWhile_rawText, rdropWhile_rawText_iff hcs]
  rfl

theorem respects_rawText : Respects rawText (some ':') ':' where
  append front rest := by
    have hcolon : markText (some ':') = [':'] := by decide
    rw [rawText_append, rawText, rawText, rawText, List.flatMap_cons, hcolon, List.singleton_append]
  mem ms h := by
    obtain ⟨m, hm, hmem⟩ := List.mem_flatMap.1 h
    cases m with
    | none => exact absurd hmem (by decide)
    | some c =>
      have hc : ':' ∈ encodeText [c] := by
        rw [encodeText, List.flatMap_singleton]
        exact hmem
      rw [colon_mem_encodeText, List.mem_singleton] at hc
      rwa [hc]

theorem slot_eq_message {f : String × String} :
    slot f = .message ↔ f.1 = "msg" ∨ f.1 = "message" := by
  rw [slot]
  split_ifs with hlevel hmessage
  · simp [hlevel]
  · simp [hmessage]
  · simp [hmessage]

/-- A field of the line, by its marks. -/
theorem messageIn_eq (field : List (Option Char)) :
    messageIn field = (fieldOf (rawText field)).bind fun f =>
      if slot f = .message then some (f.2 != "") else none := by
  have hfield : fieldOf (rawText field) = (cutOnce (some ':') field).map fun p =>
      (String.ofList (unquote (rawText p.1)), String.ofList (unquote (rawText p.2))) := by
    rw [fieldOf, parseField, splitOnce_eq, String.toList_ofList, respects_rawText.cutOnce]
    simp [unquoted_ofList, Function.comp_def]
  rw [messageIn, hfield]
  cases cutOnce (some ':') field with
  | none => rfl
  | some p =>
    have hkey : slot (String.ofList (unquote (rawText p.1)), String.ofList (unquote (rawText p.2)))
        = .message ↔ bare p.1 = "msg".toList.map some ∨ bare p.1 = "message".toList.map some := by
      rw [slot_eq_message, eq_ofList_iff, eq_ofList_iff,
        unquote_rawText_iff (forall_mem_of_all (by decide)),
        unquote_rawText_iff (forall_mem_of_all (by decide))]
    have hvalue : (String.ofList (unquote (rawText p.2)) != "") = (bare p.2 != []) := by
      have hempty := @unquote_rawText_iff p.2 [] (List.forall_mem_nil _)
      rw [Bool.eq_iff_iff, bne_iff_ne, bne_iff_ne, Ne, Ne, eq_ofList_iff]
      exact not_congr hempty
    simp only [Option.map_some, Option.bind_some, hkey, hvalue]

/-! ## the message -/

theorem message_entryOf (fs : List (String × String)) :
    (entryOf fs).message =
      ((fs.filter (slot · = .message)).getLast?.map Prod.snd).getD "" := by
  induction fs using List.reverseRecOn with
  | nil => rfl
  | append_singleton fs f ih =>
    have hset : entryOf (fs ++ [f]) = (entryOf fs).set f := List.foldl_concat ..
    rw [hset, set_eq, List.filter_append]
    cases hslot : slot f <;> simp [hslot, ih]

theorem flatMap_member {ps : List (String × String)} (hne : ps ≠ []) :
    ps.flatMap (fun p => ',' :: member p) = ',' :: members ps := by
  induction ps with
  | nil => exact absurd rfl hne
  | cons p ps ih =>
    cases ps with
    | nil => simp
    | cons q ps => rw [List.flatMap_cons, ih (List.cons_ne_nil _ _), members_cons_cons]; rfl

/-- **Fields.**  The fields of an entry are those that its texts make. -/
theorem fieldsOf_members {ps : List (String × String)} (hne : ps ≠ []) :
    fieldsOf none (members ps) =
      ((cutMarks [] (entryMarks false ps)).map rawText).filterMap fieldOf := by
  obtain ⟨⟨back, hback⟩, -⟩ := members_quotes hne
  have hagree := @agree_entry false none ps []
  have hempty : fieldOf (rawText []) = none := fieldOf_nil
  rw [flatMap_member hne, scanFields_comma, List.filterMap_cons_none hempty, hback,
    scanFields_quote (by decide)] at hagree
  rw [fieldsOf, hback, scanFields_quote (by decide), ← hagree]

theorem LogCall.entry_ne_nil (call : LogCall) : call.entry ≠ [] := by
  have hinsert : ∀ k v entries, Http.insertEntry k v entries ≠ [] := by
    intro k v entries
    cases entries with
    | nil => exact List.cons_ne_nil _ _
    | cons q entries =>
      rw [Http.insertEntry]
      split <;> exact List.cons_ne_nil _ _
  rw [entry]
  induction call.context using List.reverseRecOn with
  | nil => exact List.cons_ne_nil _ _
  | append_singleton context p ih =>
    rw [List.foldl_concat]
    exact hinsert _ _ _

theorem message_ne_iff (fs : List (String × String)) :
    (entryOf fs).message ≠ "" ↔ ∃ f ∈ (fs.filter (slot · = .message)).getLast?, f.2 ≠ "" := by
  rw [message_entryOf]
  cases (fs.filter (slot · = .message)).getLast? <;> simp

theorem parse_isSome (call : LogCall) : (parseLogJson call.json).isSome = true ↔
    (entryOf (fieldsOf none (members call.entry))).message ≠ "" := by
  rw [LogCall.json, parseLogJson_object call.entry_ne_nil]
  split <;> simp_all

/-- **Entries.**  There is an entry for a call iff the last field for the message has a value. -/
theorem parse_isSome_iff (call : LogCall) : (parseLogJson call.json).isSome = true ↔ call.Heard := by
  have hfields : (cutMarks [] (entryMarks false call.entry)).filterMap messageIn =
      ((fieldsOf none (members call.entry)).filter (slot · = .message)).map (·.2 != "") := by
    rw [fieldsOf_members call.entry_ne_nil]
    generalize cutMarks [] (entryMarks false call.entry) = fields
    induction fields with
    | nil => rfl
    | cons field fields ih =>
      rw [List.filterMap_cons, messageIn_eq, ih, List.map_cons, List.filterMap_cons]
      cases fieldOf (rawText field) with
      | none => rfl
      | some f => by_cases hslot : slot f = .message <;> simp [hslot]
  rw [parse_isSome, message_ne_iff, LogCall.Heard, hfields, List.getLast?_map]
  cases ((fieldsOf none (members call.entry)).filter (slot · = .message)).getLast? <;> simp

/-! ## the whole output -/

theorem map_some_filterMap {α β : Type} {f : α → Option β} {l : List α}
    (h : ∀ a ∈ l, (f a).isSome = true) : (l.filterMap f).map some = l.map f := by
  induction l with
  | nil => rfl
  | cons a l ih =>
    obtain ⟨ha, hl⟩ := List.forall_mem_cons.1 h
    obtain ⟨b, hb⟩ := Option.isSome_iff_exists.1 ha
    rw [List.filterMap_cons_some hb, List.map_cons, List.map_cons, ih hl, hb]

/-- If there are log lines, every one must stand where a line begins and have an entry, and
the page must not begin with a newline. -/
theorem Output.intact_iff (o : Output) (hrest : o.rest ≠ []) :
    o.Intact ↔ o.page.toList.head? ≠ some '\n' ∧ (∀ seg ∈ o.before, EndsLine seg.toList) ∧
      ∀ p ∈ o.rest, (parseLogJson p.1.json).isSome = true := by
  constructor
  · rintro ⟨entries, hextract, hentries⟩
    have hparsed : ∀ p ∈ o.rest, (parseLogJson p.1.json).isSome = true := by
      intro p hp
      have hmem : parseLogJson p.1.json ∈ entries.map some := by
        rw [hentries]
        exact List.mem_map_of_mem hp
      obtain ⟨entry, -, hentry⟩ := List.mem_map.1 hmem
      rw [← hentry]
      rfl
    have hends : ∀ seg ∈ o.before, EndsLine seg.toList := by
      have hle := o.length_entries_le
      have hlength := congrArg List.length hentries
      rw [o.extract_text hrest] at hextract
      rw [(Prod.mk.inj hextract).2] at hle
      rw [List.length_map, List.length_map, ← o.length_before] at hlength
      have hall := List.countP_eq_length.1 (Nat.le_antisymm List.countP_le_length (hlength ▸ hle))
      simpa using hall
    have hpage := (extract_of_endsLine o hrest hends).2.1
    rw [hextract] at hpage
    exact ⟨hpage rfl, hends, hparsed⟩
  · rintro ⟨hpage, hends, hparsed⟩
    obtain ⟨hentries, hcleaned⟩ := extract_of_endsLine o hrest hends
    exact ⟨_, Prod.ext (hcleaned.2 hpage) hentries, map_some_filterMap hparsed⟩

/-- The page is left as it was, with one entry for each log line, exactly if there is no log
line; or if the page does not begin with a newline, every log line stands where a line
begins, and the last field for the message of every one has a value.  If no text is escaped,
the fields are those of the call. -/
theorem extract_intact_iff (o : Output) :
    (o.Intact ↔ o.rest = [] ∨
      (o.page.toList.head? ≠ some '\n' ∧ (∀ seg ∈ o.before, EndsLine seg.toList) ∧
        ∀ p ∈ o.rest, p.1.Heard)) ∧
    ∀ p ∈ o.rest, (∀ q ∈ p.1.entry, PlainPair q) →
      (p.1.Heard ↔ ∃ q ∈ (p.1.entry.filter fun q => q.1 = "msg" ∨ q.1 = "message").getLast?,
        q.2 ≠ "") := by
  simp only [← parse_isSome_iff]
  refine ⟨?_, fun p _ hplain => ?_⟩
  · by_cases hrest : o.rest = []
    · exact iff_of_true (o.intact_of_nil hrest) (.inl hrest)
    · rw [o.intact_iff hrest, or_iff_right hrest]
  · rw [parse_isSome, (fieldsOf_eq_iff none_ne_backslash).2 hplain, message_ne_iff]
    simp only [slot_eq_message]

/-- A call behind a text that does not end its line. -/
def glued : Output where
  first := "Hello"
  rest := [(⟨"m", "info", [], by decide⟩, "")]
  unmarked := by decide

/-- The log line stays in the page, and there is no entry. -/
theorem glued_not_extracted :
    extractStructuredLogs (utf8 glued.text) = (utf8 glued.text, []) ∧
      glued.page = "Hello" ∧ ¬ glued.Intact := by
  have hkept : ['\n'].intercalate
      (((glued.text.toList.splitOn '\n').filter isText).dropWhile List.isEmpty) =
        glued.text.toList := by
    rw [Output.toList_text]
    decide
  have hentries : entriesOf (logTexts (glued.text.toList.splitOn '\n')) = [] :=
    List.length_eq_zero_iff.1 (Nat.le_zero.1 (glued.length_entries_le.trans (by decide)))
  have hextract : extractStructuredLogs (utf8 glued.text) = (utf8 glued.text, []) := by
    rw [glued.extract_text (List.cons_ne_nil _ _), hkept, hentries]
    rfl
  refine ⟨hextract, by decide, ?_⟩
  rintro ⟨entries, h, hone⟩
  rw [hextract] at h
  rw [← (Prod.mk.inj h).2] at hone
  cases hone

end Turbine.Features
