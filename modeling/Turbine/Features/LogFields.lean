import Mathlib.Algebra.GroupWithZero.Nat
import Mathlib.Data.List.DropRight
import Turbine.Features.Logs

/-!
# Turbine.Features.LogFields

What `parse_log_json` makes of the JSON of a call of `turbine_log`.  Nothing is unescaped, and
a quote behind a backslash does not count, so a text that ends with a backslash has no
closing quote.

* `fieldsOf_eq_iff`: the fields are the members iff nothing was escaped;
* `parse_faithful_iff`: when the entry is that of the call.
-/

namespace Turbine.Features

open Base Json

/-! ## scanning -/

variable {inQuotes : Bool} {prev : Option Char} {field cs rest : List Char} {c : Char}

theorem scanFields_quote (h : prev ≠ some '\\') :
    scanFields inQuotes prev field ('"' :: rest) =
      scanFields (!inQuotes) (some '"') (field ++ ['"']) rest := by
  rw [scanFields, if_pos ⟨rfl, h⟩]

theorem scanFields_comma :
    scanFields false prev field (',' :: rest) = field :: scanFields false (some ',') [] rest := by
  have hcomma : ',' ≠ '"' := by decide
  rw [scanFields, if_neg (fun h => hcomma h.1), if_pos ⟨rfl, rfl⟩]

/-- In quotes, or if it is no comma, a character goes into the field. -/
theorem scanFields_other (hquote : c ≠ '"' ∨ prev = some '\\')
    (hcomma : c ≠ ',' ∨ inQuotes = true) :
    scanFields inQuotes prev field (c :: rest) =
      scanFields inQuotes (some c) (field ++ [c]) rest := by
  have hquote' : ¬ (c = '"' ∧ prev ≠ some '\\') := by tauto
  have hcomma' : ¬ (c = ',' ∧ inQuotes = false) := by
    rintro ⟨rfl, rfl⟩
    simp at hcomma
  rw [scanFields, if_neg hquote', if_neg hcomma']

/-- Characters that are no quotes and, outside quotes, no commas. -/
theorem scanFields_unquoted (hquote : '"' ∉ cs) (hcomma : ',' ∉ cs ∨ inQuotes = true) :
    scanFields inQuotes prev field (cs ++ rest) =
      scanFields inQuotes (cs.getLast?.or prev) (field ++ cs) rest := by
  induction cs generalizing prev field with
  | nil => simp
  | cons c cs ih =>
    obtain ⟨hc, hcs⟩ := List.ne_and_not_mem_of_not_mem_cons hquote
    obtain ⟨hcomma, hrest⟩ : (c ≠ ',' ∨ inQuotes = true) ∧ (',' ∉ cs ∨ inQuotes = true) := by
      rw [List.mem_cons, not_or] at hcomma
      tauto
    rw [List.cons_append, scanFields_other (.inl hc.symm) hcomma, ih hcs hrest,
      List.getLast?_cons, List.append_assoc, List.singleton_append]
    cases cs.getLast? <;> rfl

/-- A character of a text goes into the field: its quotes stand behind backslashes. -/
theorem scanFields_encodeChar (hcomma : c ≠ ',' ∨ inQuotes = true) :
    scanFields inQuotes prev field (encodeChar c ++ rest) =
      scanFields inQuotes (encodeChar c).getLast? (field ++ encodeChar c) rest := by
  rcases encodeChar_cases c with
    ⟨hplain, hc⟩ | ⟨-, hc⟩ | ⟨-, hc⟩ | ⟨-, more, last, hc, hmore, hlast⟩
  · rw [hc, List.singleton_append, scanFields_other (.inl hplain.2.2.1) hcomma]
    rfl
  · rw [hc, List.cons_append, scanFields_other (.inl (by decide)) (.inl (by decide)),
      List.cons_append, scanFields_other (.inr rfl) (.inl (by decide))]
    simp
  · rw [hc, List.cons_append, scanFields_other (.inl (by decide)) (.inl (by decide)),
      List.cons_append, scanFields_other (.inl (by decide)) (.inl (by decide))]
    simp
  · have hnone : ∀ d, d.isAlphanum = false → d ≠ '\\' → d ∉ encodeChar c := by
      intro d hd hbackslash hmem
      rw [hc, List.mem_cons, List.mem_append, List.mem_singleton] at hmem
      rcases hmem with h | h | rfl
      · exact hbackslash h
      · obtain h | h := hmore d h
        · exact hbackslash h
        · simp [hd] at h
      · simp [hd] at hlast
    have hlast : (encodeChar c).getLast?.or prev = (encodeChar c).getLast? := by
      rw [hc, List.getLast?_cons]
      rfl
    rw [scanFields_unquoted (hnone _ (by decide) (by decide))
      (.inl (hnone _ (by decide) (by decide))), hlast]

/-- The text of a string in quotes goes into the field. -/
theorem scanFields_encodeText :
    scanFields true prev field (encodeText cs ++ rest) =
      scanFields true ((encodeText cs).getLast?.or prev) (field ++ encodeText cs) rest := by
  induction cs generalizing prev field with
  | nil => simp
  | cons c cs ih =>
    have hlast := List.getLast?_eq_some_getLast (encodeChar_ne_nil c)
    rw [encodeText_cons, List.append_assoc, scanFields_encodeChar (.inr rfl), ih,
      List.append_assoc, List.getLast?_append, Option.or_assoc, hlast, Option.some_or]

theorem exists_field (hne : field ≠ []) :
    ∃ more others, scanFields inQuotes prev field rest = (field ++ more) :: others := by
  induction rest generalizing inQuotes prev field with
  | nil => exact ⟨[], [], by simp [scanFields, hne]⟩
  | cons c rest ih =>
    rw [scanFields]
    split_ifs
    · obtain ⟨more, others, h⟩ := @ih (!inQuotes) (some c) (field ++ [c]) (List.concat_ne_nil _ _)
      exact ⟨c :: more, others, by rw [h, List.append_assoc, List.singleton_append]⟩
    · exact ⟨[], _, by rw [List.append_nil]⟩
    · obtain ⟨more, others, h⟩ := @ih inQuotes (some c) (field ++ [c]) (List.concat_ne_nil _ _)
      exact ⟨c :: more, others, by rw [h, List.append_assoc, List.singleton_append]⟩

/-- Each field takes a comma away, but for one. -/
theorem count_scanFields :
    ((scanFields inQuotes prev field rest).map (·.count ',')).sum +
        (scanFields inQuotes prev field rest).length ≤ (field ++ rest).count ',' + 1 := by
  induction rest generalizing inQuotes prev field with
  | nil =>
    rw [scanFields]
    split <;> simp
  | cons c rest ih =>
    rw [scanFields]
    split_ifs with hquote hcomma
    · have h := @ih (!inQuotes) (some c) (field ++ [c])
      rwa [List.append_assoc, List.singleton_append] at h
    · have h := @ih inQuotes (some c) []
      obtain ⟨rfl, -⟩ := hcomma
      simp only [List.map_cons, List.sum_cons, List.length_cons, List.count_append,
        List.count_cons_self, List.nil_append] at h ⊢
      omega
    · have h := @ih inQuotes (some c) (field ++ [c])
      rwa [List.append_assoc, List.singleton_append] at h

/-! ## keys and values -/

/-- `trim().trim_matches('"')`, on the characters of a text. -/
def unquote (cs : List Char) : List Char :=
  ((trimChars cs).dropWhile (· == '"')).rdropWhile (· == '"')

/-- `parseField`, on the characters of a part. -/
def fieldOf (part : List Char) : Option (String × String) := parseField (String.ofList part)

theorem unquoted_ofList : unquoted (String.ofList cs) = String.ofList (unquote cs) := by
  simp only [unquoted, trimEndMatches, trimStartMatches, trim_eq, String.toList_ofList]
  rfl

theorem fieldOf_append (h : ':' ∉ cs) :
    fieldOf (cs ++ ':' :: rest) =
      some (String.ofList (unquote cs), String.ofList (unquote rest)) := by
  rw [fieldOf, parseField, splitOnce_eq, String.toList_ofList, cutOnce_append h, Option.map_some,
    Option.map_some, unquoted_ofList, unquoted_ofList]

theorem trimChars_eq_rdropWhile (cs : List Char) :
    trimChars cs = (cs.dropWhile isWhitespace).rdropWhile isWhitespace := rfl

theorem unquote_sublist (cs : List Char) : (unquote cs).Sublist cs := by
  have htrim : (trimChars cs).Sublist cs :=
    (List.rdropWhile_prefix isWhitespace _).sublist.trans (List.dropWhile_sublist _)
  exact ((List.rdropWhile_prefix _ _).sublist.trans (List.dropWhile_sublist _)).trans htrim

theorem prefix_rdropWhile_append {p : Char → Bool} {front back : List Char}
    (h : ∀ c ∈ front.getLast?, p c = false) : front <+: (front ++ back).rdropWhile p := by
  induction back using List.reverseRecOn with
  | nil =>
    rw [List.append_nil, List.rdropWhile_eq_self_iff.2]
    intro hne
    simpa using h _ (List.getLast?_eq_some_getLast hne)
  | append_singleton back c ih =>
    rw [← List.append_assoc]
    by_cases hc : p c = true
    · rwa [List.rdropWhile_concat_pos _ _ _ hc]
    · rw [List.rdropWhile_concat_neg _ _ _ hc, List.append_assoc]
      exact List.prefix_append _ _

theorem unquote_quoted (h : cs.head? ≠ some '"') :
    unquote ('"' :: (cs ++ ['"'])) = cs.rdropWhile (· == '"') := by
  have hquote : isWhitespace '"' = false := by decide
  rw [unquote, trimChars_eq hquote hquote, List.dropWhile_cons_of_pos (by rfl)]
  cases cs with
  | nil => rfl
  | cons c cs =>
    have hc : c ≠ '"' := by simpa using h
    rw [List.cons_append, List.dropWhile_cons_of_neg (by simpa using hc), ← List.cons_append,
      List.rdropWhile_concat_pos _ _ _ (by rfl)]

/-- A string is read as what it was made from iff nothing in it was escaped. -/
theorem unquote_encodeText_iff :
    unquote ('"' :: (encodeText cs ++ ['"'])) = cs ↔ ∀ c ∈ cs, IsPlain c := by
  rw [unquote_quoted head?_encodeText_ne, ← encodeText_eq_iff]
  by_cases hlast : cs.getLast? = some '"'
  · refine iff_of_false (fun h => ?_) (fun h => ?_)
    · -- what is left does not end with a quote
      have hne : cs ≠ [] := by
        rintro rfl
        cases hlast
      have hnot := List.rdropWhile_last_not (· == '"') (encodeText cs) (by rwa [h])
      rw [List.getLast?_eq_some_getLast hne, Option.some_inj] at hlast
      simp [h, hlast] at hnot
    · have hmem : '"' ∈ cs := List.mem_of_getLast? hlast
      exact absurd rfl (encodeText_eq_iff.1 h _ hmem).2.2.1
  · have hself : (encodeText cs).rdropWhile (· == '"') = encodeText cs := by
      rw [List.rdropWhile_eq_self_iff]
      intro hne h
      rw [beq_iff_eq] at h
      exact hlast ((getLast?_encodeText_iff (.inl rfl)).1 (h ▸ List.getLast?_eq_some_getLast hne))
    rw [hself]

/-- A text that does not begin with a quote and ends with a backslash is read with what
stands behind it. -/
theorem prefix_unquote (hhead : cs.head? ≠ some '"') (hlast : cs.getLast? = some '\\') :
    cs <+: unquote ('"' :: (cs ++ rest)) := by
  have hquote : isWhitespace '"' = false := by decide
  have hkept : ('"' :: cs) <+: trimChars ('"' :: (cs ++ rest)) := by
    rw [trimChars_eq_rdropWhile, List.dropWhile_cons_of_neg (by simp [hquote]), ← List.cons_append]
    refine prefix_rdropWhile_append fun c hc => ?_
    rw [List.getLast?_cons, hlast] at hc
    obtain rfl := Option.mem_some_iff.1 hc
    decide
  obtain ⟨more, hmore⟩ := hkept
  rw [unquote, ← hmore, List.cons_append, List.dropWhile_cons_of_pos (by rfl)]
  cases cs with
  | nil => exact List.nil_prefix
  | cons c cs =>
    have hc : c ≠ '"' := by simpa using hhead
    rw [List.cons_append, List.dropWhile_cons_of_neg (by simpa using hc), ← List.cons_append]
    refine prefix_rdropWhile_append fun d hd => ?_
    rw [hlast] at hd
    obtain rfl := Option.mem_some_iff.1 hd
    decide

/-- So a string with a backslash at its end is read as something longer. -/
theorem length_lt_unquote (h : cs.getLast? = some '\\') :
    cs.length < (unquote ('"' :: (encodeText cs ++ rest))).length := by
  have hlt : cs.length < (encodeText cs).length :=
    length_lt_encodeText (List.mem_of_getLast? h) fun hplain => hplain.2.2.2 rfl
  have hlast : (encodeText cs).getLast? = some '\\' := (getLast?_encodeText_iff (.inr rfl)).2 h
  exact hlt.trans_le (prefix_unquote head?_encodeText_ne hlast).length_le

/-! ## members -/

variable {k v : String}

/-- Neither escapes nor, in the key, a colon. -/
def PlainPair (p : String × String) : Prop :=
  (∀ c ∈ p.1.toList, IsPlain c ∧ c ≠ ':') ∧ ∀ c ∈ p.2.toList, IsPlain c

-- by the characters of the texts, not by all there are
instance {p : String × String} : Decidable (PlainPair p) :=
  decidable_of_iff (p.1.toList.all (fun c => decide (IsPlain c ∧ c ≠ ':')) = true ∧
    p.2.toList.all (fun c => decide (IsPlain c)) = true) (by simp [PlainPair])

theorem member_eq :
    member (k, v) ++ rest = '"' :: (encodeText k.toList ++ '"' :: ':' :: '"' ::
      (encodeText v.toList ++ '"' :: rest)) := by
  simp [member, encodeString]

/-- What the scan makes of what stands behind a member. -/
def scanTail : List Char → List (List Char)
  | [] => []
  | _ :: rest => scanFields false (some ',') [] rest

/-- A string, up to its closing quote. -/
theorem scanFields_string (h : prev ≠ some '\\') (hcs : cs.getLast? ≠ some '\\') :
    scanFields false prev field ('"' :: (encodeText cs ++ '"' :: rest)) =
      scanFields false (some '"') (field ++ '"' :: (encodeText cs ++ ['"'])) rest := by
  have hlast : (encodeText cs).getLast?.or (some '"') ≠ some '\\' := by
    have hne := mt (getLast?_encodeText_iff (.inr rfl)).1 hcs
    cases hget : (encodeText cs).getLast? with
    | none => simp
    | some d =>
      rw [hget] at hne
      simpa using hne
  rw [scanFields_quote h, Bool.not_false, scanFields_encodeText, scanFields_quote hlast]
  simp

/-- A member whose strings do not end with a backslash is a field. -/
theorem scan_member (hprev : prev ≠ some '\\') (hk : k.toList.getLast? ≠ some '\\')
    (hv : v.toList.getLast? ≠ some '\\') (hrest : rest = [] ∨ ∃ more, rest = ',' :: more) :
    scanFields false prev [] (member (k, v) ++ rest) = member (k, v) :: scanTail rest := by
  have hmember : scanFields false prev [] (member (k, v) ++ rest) =
      scanFields false (some '"') (member (k, v)) rest := by
    rw [member_eq, scanFields_string hprev hk,
      scanFields_other (.inl (by decide)) (.inl (by decide)), scanFields_string (by decide) hv]
    simp [member, encodeString]
  rw [hmember]
  rcases hrest with rfl | ⟨more, rfl⟩
  · rw [scanFields, if_neg (by simp [member, encodeString])]
    rfl
  · rw [scanFields_comma]
    rfl

/-- The first field of a text that begins with a member begins with its key. -/
theorem exists_key (hprev : prev ≠ some '\\') :
    ∃ more others, scanFields false prev [] (member (k, v) ++ rest) =
      ('"' :: (encodeText k.toList ++ ['"']) ++ ':' :: more) :: others := by
  have hclose : ∃ inQuotes, ∀ text, scanFields false prev []
      ('"' :: (encodeText k.toList ++ '"' :: ':' :: text)) =
        scanFields inQuotes (some ':') ('"' :: (encodeText k.toList ++ ['"']) ++ [':']) text := by
    -- the closing quote counts unless there is a backslash before it
    by_cases hlast : (encodeText k.toList).getLast?.or (some '"') = some '\\'
    · refine ⟨true, fun text => ?_⟩
      rw [scanFields_quote hprev, Bool.not_false, scanFields_encodeText,
        scanFields_other (.inr hlast) (.inr rfl),
        scanFields_other (.inl (by decide)) (.inl (by decide))]
      simp
    · refine ⟨false, fun text => ?_⟩
      rw [scanFields_quote hprev, Bool.not_false, scanFields_encodeText, scanFields_quote hlast,
        scanFields_other (.inl (by decide)) (.inl (by decide))]
      simp
  obtain ⟨inQuotes, hclose⟩ := hclose
  obtain ⟨more, others, h⟩ := @exists_field inQuotes (some ':')
    ('"' :: (encodeText k.toList ++ ['"']) ++ [':'])
    ('"' :: (encodeText v.toList ++ '"' :: rest)) (by simp)
  exact ⟨more, others, by rw [member_eq, hclose, h, List.append_assoc, List.singleton_append]⟩

/-- A field is cut at its first colon. -/
theorem fieldOf_eq_some {part : List Char} {f : String × String} (h : fieldOf part = some f) :
    ∃ key value, part = key ++ ':' :: value ∧ ':' ∉ key ∧
      f = (String.ofList (unquote key), String.ofList (unquote value)) := by
  by_cases hmem : ':' ∈ part
  · obtain ⟨key, value, rfl, hkey⟩ := List.eq_append_cons_of_mem hmem
    rw [fieldOf_append hkey] at h
    exact ⟨key, value, rfl, hkey, (Option.some.inj h).symm⟩
  · rw [fieldOf, parseField, splitOnce_eq, String.toList_ofList, cutOnce_eq_none hmem] at h
    cases h

theorem colon_mem_encodeText : ':' ∈ encodeText cs ↔ ':' ∈ cs := by
  rw [← List.count_pos_iff, ← List.count_pos_iff, count_encodeText (by decide) (by decide)]

theorem eq_ofList_iff {s : String} : String.ofList cs = s ↔ cs = s.toList := by
  rw [← String.toList_inj, String.toList_ofList]

theorem fieldOf_isSome {part : List Char} (h : ':' ∈ part) : ∃ f, fieldOf part = some f := by
  obtain ⟨key, value, rfl, hkey⟩ := List.eq_append_cons_of_mem h
  exact ⟨_, fieldOf_append hkey⟩

theorem getLast?_ne_of_plain (h : ∀ c ∈ cs, IsPlain c) : cs.getLast? ≠ some '\\' :=
  fun hlast => (h _ (List.mem_of_getLast? hlast)).2.2.2 rfl

/-- A key that is read as it was written has nothing that was escaped, and no colon. -/
theorem plain_key {more : List Char} {value : String}
    (h : fieldOf ('"' :: (encodeText k.toList ++ ['"']) ++ ':' :: more) = some (k, value)) :
    (∀ c ∈ k.toList, IsPlain c ∧ c ≠ ':') ∧ value = String.ofList (unquote more) := by
  -- what is read of a field has no colon in its key
  have hcolon : ':' ∉ k.toList := by
    obtain ⟨key, value', -, hkey, hf⟩ := fieldOf_eq_some h
    have hk := eq_ofList_iff.1 (Prod.mk.inj hf).1.symm
    rw [← hk]
    exact fun hmem => hkey ((unquote_sublist key).subset hmem)
  have hquoted : ':' ∉ '"' :: (encodeText k.toList ++ ['"']) := by
    simp [colon_mem_encodeText, hcolon]
  rw [fieldOf_append hquoted] at h
  obtain ⟨hk, hvalue⟩ := Prod.mk.inj (Option.some.inj h)
  have hplain := unquote_encodeText_iff.1 (eq_ofList_iff.1 hk)
  refine ⟨fun c hc => ⟨hplain c hc, ?_⟩, hvalue.symm⟩
  rintro rfl
  exact hcolon hc

/-- A field that is read as the member it begins with has nothing that was escaped. -/
theorem plain_of_first (hprev : prev ≠ some '\\') (hrest : rest = [] ∨ ∃ more, rest = ',' :: more)
    {others : List (String × String)}
    (h : (scanFields false prev [] (member (k, v) ++ rest)).filterMap fieldOf = (k, v) :: others) :
    PlainPair (k, v) ∧ others = (scanTail rest).filterMap fieldOf := by
  have hread : ∀ {part parts}, scanFields false prev [] (member (k, v) ++ rest) = part :: parts →
      ':' ∈ part → fieldOf part = some (k, v) ∧ others = parts.filterMap fieldOf := by
    intro part parts hscan hmem
    obtain ⟨f, hf⟩ := fieldOf_isSome hmem
    rw [hscan, List.filterMap_cons_some hf] at h
    obtain ⟨rfl, rfl⟩ := List.cons.inj h
    exact ⟨hf, rfl⟩
  obtain ⟨more, parts, hscan⟩ := @exists_key prev rest k v hprev
  obtain ⟨hk, -⟩ := plain_key (hread hscan (by simp)).1
  have hklast := getLast?_ne_of_plain fun c hc => (hk c hc).1
  by_cases hvlast : v.toList.getLast? = some '\\'
  · -- the field does not end before the next comma in quotes, and is too long
    obtain ⟨more, parts, hfield⟩ := @exists_field true
      ((encodeText v.toList).getLast?.or (some '"'))
      ('"' :: (encodeText k.toList ++ ['"']) ++ ':' :: '"' :: encodeText v.toList)
      ('"' :: rest) (by simp)
    have hscan' : scanFields false prev [] (member (k, v) ++ rest) =
        ('"' :: (encodeText k.toList ++ ['"']) ++ ':' :: '"' :: (encodeText v.toList ++ more)) ::
          parts := by
      rw [member_eq, scanFields_string hprev hklast,
        scanFields_other (.inl (by decide)) (.inl (by decide)), scanFields_quote (by decide),
        Bool.not_false, scanFields_encodeText]
      simpa using hfield
    obtain ⟨-, hvalue⟩ := plain_key (hread hscan' (by simp)).1
    have hlt := @length_lt_unquote v.toList more hvlast
    have hsame : unquote ('"' :: (encodeText v.toList ++ more)) = v.toList :=
      eq_ofList_iff.1 hvalue.symm
    rw [hsame] at hlt
    exact absurd hlt (Nat.lt_irrefl _)
  · have hscan' := scan_member hprev hklast hvlast hrest
    have hmember : member (k, v) = '"' :: (encodeText k.toList ++ ['"']) ++ ':' :: '"' ::
        (encodeText v.toList ++ ['"']) := rfl
    obtain ⟨hf, hothers⟩ := hread hscan' (by simp [hmember])
    rw [hmember] at hf
    obtain ⟨-, hvalue⟩ := plain_key hf
    exact ⟨⟨hk, unquote_encodeText_iff.1 (eq_ofList_iff.1 hvalue.symm)⟩, hothers⟩

/-! ## the members of an object -/

variable {ps : List (String × String)}

/-- The fields of a text that follows the character `prev`. -/
def fieldsOf (prev : Option Char) (text : List Char) : List (String × String) :=
  (scanFields false prev [] text).filterMap fieldOf

theorem members_cons (p : String × String) (ps : List (String × String)) :
    ∃ rest, members (p :: ps) = member p ++ rest ∧ (rest = [] ∨ ∃ more, rest = ',' :: more) ∧
      scanTail rest = scanFields false (some ',') [] (members ps) := by
  cases ps with
  | nil => exact ⟨[], by simp, .inl rfl, rfl⟩
  | cons q ps => exact ⟨_, members_cons_cons p q ps, .inr ⟨_, rfl⟩, rfl⟩

theorem plain_of_first_member (hprev : prev ≠ some '\\') {others : List (String × String)}
    (h : fieldsOf prev (members ((k, v) :: ps)) = (k, v) :: others) :
    PlainPair (k, v) ∧ others = fieldsOf (some ',') (members ps) := by
  obtain ⟨rest, hmembers, hrest, htail⟩ := members_cons (k, v) ps
  rw [fieldsOf, hmembers] at h
  obtain ⟨hplain, hothers⟩ := plain_of_first hprev hrest h
  exact ⟨hplain, by rw [hothers, htail, fieldsOf]⟩

theorem fieldsOf_of_plain (hprev : prev ≠ some '\\') (h : PlainPair (k, v)) :
    fieldsOf prev (members ((k, v) :: ps)) = (k, v) :: fieldsOf (some ',') (members ps) := by
  obtain ⟨rest, hmembers, hrest, htail⟩ := members_cons (k, v) ps
  have hk := getLast?_ne_of_plain fun c hc => (h.1 c hc).1
  have hv := getLast?_ne_of_plain h.2
  have hcolon : ':' ∉ '"' :: (encodeText k.toList ++ ['"']) := by
    have hmem : ':' ∉ k.toList := fun hmem => (h.1 _ hmem).2 rfl
    simp [colon_mem_encodeText, hmem]
  have hmember : member (k, v) = '"' :: (encodeText k.toList ++ ['"']) ++ ':' :: '"' ::
      (encodeText v.toList ++ ['"']) := rfl
  have hfield : fieldOf (member (k, v)) = some (k, v) := by
    rw [hmember, fieldOf_append hcolon, unquote_encodeText_iff.2 fun c hc => (h.1 c hc).1,
      unquote_encodeText_iff.2 h.2, String.ofList_toList, String.ofList_toList]
  rw [fieldsOf, hmembers, scan_member hprev hk hv hrest, List.filterMap_cons_some hfield, htail,
    fieldsOf]

/-- The fields are the members iff nothing was escaped and no key has a colon. -/
theorem fieldsOf_eq_iff (hprev : prev ≠ some '\\') :
    fieldsOf prev (members ps) = ps ↔ ∀ p ∈ ps, PlainPair p := by
  induction ps generalizing prev with
  | nil => simp [fieldsOf, scanFields]
  | cons p ps ih =>
    have hcomma : some ',' ≠ some '\\' := by decide
    rw [List.forall_mem_cons]
    constructor
    · intro h
      obtain ⟨hp, hps⟩ := plain_of_first_member hprev h
      exact ⟨hp, (ih hcomma).1 hps.symm⟩
    · rintro ⟨hp, hps⟩
      rw [fieldsOf_of_plain hprev hp, (ih hcomma).2 hps]

theorem exists_first_field (hprev : prev ≠ some '\\') (hk : ∀ c ∈ k.toList, IsPlain c ∧ c ≠ ':') :
    ∃ value others, fieldsOf prev (members ((k, v) :: ps)) = (k, value) :: others := by
  obtain ⟨rest, hmembers, -⟩ := members_cons (k, v) ps
  obtain ⟨more, parts, hscan⟩ := @exists_key prev rest k v hprev
  have hcolon : ':' ∉ '"' :: (encodeText k.toList ++ ['"']) := by
    have hmem : ':' ∉ k.toList := fun hmem => (hk _ hmem).2 rfl
    simp [colon_mem_encodeText, hmem]
  have hfield := @fieldOf_append _ more hcolon
  rw [unquote_encodeText_iff.2 fun c hc => (hk c hc).1, String.ofList_toList] at hfield
  exact ⟨_, _, by rw [fieldsOf, hmembers, hscan, List.filterMap_cons_some hfield]⟩

/-! ## commas -/

/-- The commas in a key and a value. -/
def commas (p : String × String) : Nat := p.1.toList.count ',' + p.2.toList.count ','

theorem commas_le_of_fieldOf {part : List Char} {f : String × String} (h : fieldOf part = some f) :
    commas f ≤ part.count ',' := by
  obtain ⟨key, value, rfl, -, rfl⟩ := fieldOf_eq_some h
  have hkey := (unquote_sublist key).count_le ','
  have hvalue := (unquote_sublist value).count_le ','
  simp only [commas, String.toList_ofList, List.count_append, List.count_cons]
  omega

theorem sum_commas_filterMap_le (parts : List (List Char)) :
    ((parts.filterMap fieldOf).map commas).sum ≤ (parts.map (·.count ',')).sum := by
  induction parts with
  | nil => exact Nat.le_refl _
  | cons part parts ih =>
    cases hfield : fieldOf part with
    | none =>
      rw [List.filterMap_cons_none hfield, List.map_cons, List.sum_cons]
      omega
    | some f =>
      have hle := commas_le_of_fieldOf hfield
      rw [List.filterMap_cons_some hfield, List.map_cons, List.sum_cons, List.map_cons,
        List.sum_cons]
      omega

theorem count_members (hne : ps ≠ []) :
    (members ps).count ',' + 1 = (ps.map commas).sum + ps.length := by
  have hmember : ∀ p, (member p).count ',' = commas p := by
    intro p
    have hcount : ∀ s : String, (encodeText s.toList).count ',' = s.toList.count ',' :=
      fun s => count_encodeText (by decide) (by decide)
    simp [member, encodeString, commas, hcount]
  induction ps with
  | nil => exact absurd rfl hne
  | cons p ps ih =>
    cases ps with
    | nil => simp [hmember]
    | cons q ps =>
      have h := ih (List.cons_ne_nil _ _)
      rw [members_cons_cons, List.count_append, List.count_cons_self, hmember, List.map_cons,
        List.sum_cons, List.length_cons]
      omega

/-- The more fields there are, the fewer commas they have. -/
theorem commas_fieldsOf_le (hne : ps ≠ []) :
    ((fieldsOf prev (members ps)).map commas).sum + (fieldsOf prev (members ps)).length ≤
      (ps.map commas).sum + ps.length := by
  have hscan := @count_scanFields false prev [] (members ps)
  have hsum := sum_commas_filterMap_le (scanFields false prev [] (members ps))
  have hlength := List.length_filterMap_le fieldOf (scanFields false prev [] (members ps))
  have hmembers := count_members hne
  rw [List.nil_append] at hscan
  rw [fieldsOf]
  omega

/-! ## entries -/

/-- What a field is for. -/
inductive Slot
  | level
  | message
  | context
deriving DecidableEq, Repr

def slot (f : String × String) : Slot :=
  if f.1 = "level" then .level else if f.1 = "msg" ∨ f.1 = "message" then .message else .context

@[simp] theorem slot_level (value : String) : slot ("level", value) = .level := rfl

@[simp] theorem slot_msg (value : String) : slot ("msg", value) = .message := by
  simp [slot]

variable {e : PhpLogEntry} {fs : List (String × String)} {f : String × String}

theorem set_eq : e.set f = match slot f with
    | .level => { e with level := f.2 }
    | .message => { e with message := f.2 }
    | .context => { e with context := e.context ++ [f] } := by
  rw [PhpLogEntry.set, slot]
  split_ifs <;> rfl

theorem foldl_set_context :
    (fs.foldl PhpLogEntry.set e).context = e.context ++ fs.filter (slot · = .context) := by
  induction fs generalizing e with
  | nil => simp
  | cons f fs ih =>
    rw [List.foldl_cons, ih, set_eq]
    cases hslot : slot f <;> simp [hslot]

/-- A part of an entry that none of the fields changes. -/
theorem foldl_set_fixed {part : PhpLogEntry → String} {place : Slot}
    (hset : ∀ e f, slot f ≠ place → part (PhpLogEntry.set e f) = part e)
    (h : fs.countP (slot · = place) = 0) : part (fs.foldl PhpLogEntry.set e) = part e := by
  have hslots : ∀ f ∈ fs, slot f ≠ place := by simpa using h
  clear h
  induction fs generalizing e with
  | nil => rfl
  | cons f fs ih =>
    obtain ⟨hf, hfs⟩ := List.forall_mem_cons.1 hslots
    rw [List.foldl_cons, ih hfs, hset e f hf]

theorem foldl_set_level (h : fs.countP (slot · = .level) = 0) :
    (fs.foldl PhpLogEntry.set e).level = e.level := by
  refine foldl_set_fixed (fun e f hf => ?_) h
  rw [set_eq]
  cases hslot : slot f <;> simp_all

theorem foldl_set_message (h : fs.countP (slot · = .message) = 0) :
    (fs.foldl PhpLogEntry.set e).message = e.message := by
  refine foldl_set_fixed (fun e f hf => ?_) h
  rw [set_eq]
  cases hslot : slot f <;> simp_all

/-- The commas in an entry. -/
def PhpLogEntry.commas (e : PhpLogEntry) : Nat :=
  e.level.toList.count ',' + e.message.toList.count ',' + (e.context.map Features.commas).sum

/-- An entry has no commas but those of its fields. -/
theorem commas_foldl_set_le :
    (fs.foldl PhpLogEntry.set e).commas ≤ e.commas + (fs.map commas).sum := by
  have hset : ∀ (e : PhpLogEntry) (f : String × String),
      (e.set f).commas ≤ e.commas + commas f := by
    intro e f
    rw [set_eq]
    cases hslot : slot f with
    | level | message =>
      simp only [PhpLogEntry.commas, commas]
      omega
    | context =>
      simp only [PhpLogEntry.commas, List.map_append, List.sum_append, List.map_cons,
        List.map_nil, List.sum_cons, List.sum_nil]
      omega
  induction fs generalizing e with
  | nil => simp
  | cons f fs ih =>
    have hrest := @ih (e.set f)
    have hfirst := hset e f
    rw [List.foldl_cons, List.map_cons, List.sum_cons]
    omega

theorem length_eq_slots (fs : List (String × String)) :
    fs.length = fs.countP (slot · = .level) + fs.countP (slot · = .message) +
      (fs.filter (slot · = .context)).length := by
  induction fs with
  | nil => rfl
  | cons f fs ih => cases hslot : slot f <;> simp [hslot] <;> omega

/-! ## parsing a call -/

/-- The entry for the members of an object, before the check for a message. -/
def entryOf (fs : List (String × String)) : PhpLogEntry := fs.foldl PhpLogEntry.set ⟨"info", "", []⟩

/-- The members begin and end with a quote. -/
theorem members_quotes (hne : ps ≠ []) :
    (∃ back, members ps = '"' :: back) ∧ ∃ front, members ps = front ++ ['"'] := by
  have hmember : ∀ p, ∃ front, member p = front ++ ['"'] := by
    intro p
    exact ⟨encodeString p.1 ++ ':' :: '"' :: encodeText p.2.toList, by simp [member, encodeString]⟩
  induction ps with
  | nil => exact absurd rfl hne
  | cons p ps ih =>
    obtain ⟨rest, hmembers, -⟩ := members_cons p ps
    refine ⟨⟨_, hmembers⟩, ?_⟩
    cases ps with
    | nil =>
      rw [members_singleton]
      exact hmember p
    | cons q ps =>
      obtain ⟨-, front, hfront⟩ := ih (List.cons_ne_nil _ _)
      exact ⟨member p ++ ',' :: front, by rw [members_cons_cons, hfront]; simp⟩

theorem trim_object (hne : ps ≠ []) :
    trimEndMatches (trimStartMatches (trim (object ps)) '{') '}' = String.ofList (members ps) := by
  obtain ⟨⟨back, hback⟩, front, hfront⟩ := members_quotes hne
  have hstart : ('{' :: (members ps ++ ['}'])).dropWhile (· == '{') = members ps ++ ['}'] := by
    rw [List.dropWhile_cons_of_pos (by rfl), hback, List.cons_append,
      List.dropWhile_cons_of_neg (by decide)]
  have hend : (members ps ++ ['}']).rdropWhile (· == '}') = members ps := by
    rw [List.rdropWhile_concat_pos _ _ _ (by rfl), hfront,
      List.rdropWhile_concat_neg _ _ _ (by decide)]
  rw [object, trim_eq, String.toList_ofList, trimChars_eq (by decide) (by decide), trimStartMatches,
    String.toList_ofList, hstart, trimEndMatches, String.toList_ofList, ← List.rdropWhile, hend]

theorem parseLogJson_object (hne : ps ≠ []) :
    parseLogJson (object ps) =
      if (entryOf (fieldsOf none (members ps))).message.isEmpty then none
      else some (entryOf (fieldsOf none (members ps))) := by
  have hfields : (splitJsonFields (String.ofList (members ps))).filterMap parseField =
      fieldsOf none (members ps) := by
    rw [splitJsonFields, String.toList_ofList, List.filterMap_map]
    rfl
  rw [parseLogJson, trim_object hne, hfields]
  rfl

/-- With other keys than those that are there, a context is put behind them. -/
theorem foldl_insertEntry {entry context : List (String × String)}
    (hkeys : (context.map Prod.fst).Nodup) (hnew : ∀ p ∈ context, p.1 ∉ entry.map Prod.fst) :
    context.foldl (fun entry p => Http.insertEntry p.1 p.2 entry) entry = entry ++ context := by
  induction context generalizing entry with
  | nil => simp
  | cons p context ih =>
    obtain ⟨hp, hrest⟩ := List.forall_mem_cons.1 hnew
    obtain ⟨hfresh, hkeys⟩ := List.nodup_cons.1 hkeys
    have hnext : ∀ q ∈ context, q.1 ∉ (entry ++ [(p.1, p.2)]).map Prod.fst := by
      intro q hq hmem
      rw [List.map_append, List.mem_append] at hmem
      rcases hmem with hmem | hmem
      · exact hrest q hq hmem
      · exact hfresh (List.mem_singleton.1 hmem ▸ List.mem_map_of_mem hq)
    rw [List.foldl_cons, Http.insertEntry_of_not_mem hp, ih hkeys hnext, List.append_assoc]
    rfl

/-- The members for a call. -/
def LogCall.pairs (call : LogCall) : List (String × String) :=
  ("level", call.level) :: ("msg", call.message) :: call.context

theorem LogCall.pairs_ne_nil (call : LogCall) : call.pairs ≠ [] := List.cons_ne_nil _ _

theorem slot_eq_context (h : f.1 ≠ "level" ∧ f.1 ≠ "msg" ∧ f.1 ≠ "message") :
    slot f = .context := by
  rw [slot, if_neg h.1, if_neg (not_or.2 h.2)]

variable {call : LogCall}

theorem entry_eq (hkeys : (call.context.map Prod.fst).Nodup)
    (hcontext : ∀ p ∈ call.context, p.1 ≠ "level" ∧ p.1 ≠ "msg" ∧ p.1 ≠ "message") :
    call.entry = call.pairs := by
  refine foldl_insertEntry hkeys fun p hp hmem => ?_
  have hne := hcontext p hp
  simp [hne] at hmem

/-- A list with nothing for the level or the message is all context. -/
theorem filter_context_eq (hlevel : fs.countP (slot · = .level) = 0)
    (hmessage : fs.countP (slot · = .message) = 0) : fs.filter (slot · = .context) = fs := by
  have hlength := length_eq_slots fs
  refine List.filter_sublist.eq_of_length ?_
  omega

theorem entryOf_pairs (hcontext : ∀ p ∈ call.context, slot p = .context) :
    entryOf call.pairs = ⟨call.level, call.message, call.context⟩ := by
  have hlevel : call.context.countP (slot · = .level) = 0 :=
    List.countP_eq_zero.2 fun p hp => by simp [hcontext p hp]
  have hmessage : call.context.countP (slot · = .message) = 0 :=
    List.countP_eq_zero.2 fun p hp => by simp [hcontext p hp]
  have hentry : entryOf call.pairs =
      call.context.foldl PhpLogEntry.set ⟨call.level, call.message, []⟩ := rfl
  have hfilter := filter_context_eq hlevel hmessage
  rw [hentry, PhpLogEntry.mk.injEq, foldl_set_level hlevel, foldl_set_message hmessage,
    foldl_set_context, hfilter]
  exact ⟨rfl, rfl, rfl⟩

theorem forall_mem_of_all {p : Char → Prop} [DecidablePred p] {cs : List Char}
    (h : cs.all (fun c => decide (p c)) = true) : ∀ c ∈ cs, p c := by
  simpa using h

theorem none_ne_backslash : none ≠ some '\\' := by decide

theorem plain_level : ∀ c ∈ "level".toList, IsPlain c ∧ c ≠ ':' := forall_mem_of_all (by decide)

theorem plain_msg : ∀ c ∈ "msg".toList, IsPlain c ∧ c ≠ ':' := forall_mem_of_all (by decide)

/-- If the entry is that of the call, there is one field for the level and one for the
message: there are no more fields than members, or commas would be missing. -/
theorem slots_of_faithful
    (h : entryOf (fieldsOf none (members call.pairs)) = ⟨call.level, call.message, call.context⟩) :
    (fieldsOf none (members call.pairs)).countP (slot · = .level) = 1 ∧
      (fieldsOf none (members call.pairs)).countP (slot · = .message) = 1 := by
  have hcount := @commas_fieldsOf_le none _ call.pairs_ne_nil
  have hfirst := @exists_first_field none "level" call.level (("msg", call.message) :: call.context)
    none_ne_backslash plain_level
  rw [← LogCall.pairs] at hfirst
  generalize fieldsOf none (members call.pairs) = fields at h hcount hfirst ⊢
  have hcommas := @commas_foldl_set_le ⟨"info", "", []⟩ fields
  have hpairs : (call.pairs.map commas).sum =
      PhpLogEntry.commas ⟨call.level, call.message, call.context⟩ := by
    have hlevel : "level".toList.count ',' = 0 := by decide
    have hmsg : "msg".toList.count ',' = 0 := by decide
    simp only [LogCall.pairs, List.map_cons, List.sum_cons, PhpLogEntry.commas, commas, hlevel,
      hmsg]
    omega
  have hempty : PhpLogEntry.commas ⟨"info", "", []⟩ = 0 := by decide
  have hcontext : (entryOf fields).context = fields.filter (slot · = .context) := foldl_set_context
  have hslots := length_eq_slots fields
  have hlength : call.pairs.length = call.context.length + 2 := rfl
  rw [← entryOf, h, ← hpairs, hempty] at hcommas
  rw [h] at hcontext
  dsimp only at hcontext
  rw [← hcontext] at hslots
  have hlevel : 1 ≤ fields.countP (slot · = .level) := by
    obtain ⟨value, others, rfl⟩ := hfirst
    rw [List.countP_cons_of_pos (by rfl)]
    exact Nat.le_add_left _ _
  have hmessage : 1 ≤ fields.countP (slot · = .message) := by
    by_contra hnone
    have hkept : (entryOf fields).message = "" := foldl_set_message (by omega)
    rw [h] at hkept
    exact call.message_ne hkept
  omega

/-- So the fields are the members. -/
theorem fieldsOf_of_faithful
    (h : entryOf (fieldsOf none (members call.pairs)) = ⟨call.level, call.message, call.context⟩) :
    fieldsOf none (members call.pairs) = call.pairs := by
  obtain ⟨hlevels, hmessages⟩ := slots_of_faithful h
  obtain ⟨level, others, hfields⟩ := @exists_first_field none "level" call.level
    (("msg", call.message) :: call.context) none_ne_backslash plain_level
  rw [← LogCall.pairs] at hfields
  -- the first field is the only one for the level
  rw [hfields, List.countP_cons_of_pos (by simp), Nat.succ_inj] at hlevels
  rw [hfields, List.countP_cons_of_neg (by simp)] at hmessages
  have hentry : entryOf (("level", level) :: others) =
      others.foldl PhpLogEntry.set ⟨level, "", []⟩ := rfl
  rw [hfields, hentry] at h
  obtain rfl : level = call.level := by
    have hlevel := congrArg PhpLogEntry.level h
    rwa [foldl_set_level hlevels] at hlevel
  have hothers : others = fieldsOf (some ',') (members (("msg", call.message) :: call.context)) :=
    (plain_of_first_member none_ne_backslash hfields).2
  -- the next one is the only one for the message, and the others are the context
  obtain ⟨message, context, hnext⟩ := @exists_first_field (some ',') "msg" call.message call.context
    (by decide) plain_msg
  rw [hnext] at hothers
  subst hothers
  rw [List.countP_cons_of_neg (by simp)] at hlevels
  rw [List.countP_cons_of_pos (by simp), Nat.succ_inj] at hmessages
  have hset : PhpLogEntry.set ⟨call.level, "", []⟩ ("msg", message) =
      ⟨call.level, message, []⟩ := rfl
  rw [List.foldl_cons, hset] at h
  obtain rfl : message = call.message := by
    have hmessage := congrArg PhpLogEntry.message h
    rwa [foldl_set_message hmessages] at hmessage
  have hcontext := congrArg PhpLogEntry.context h
  rw [foldl_set_context, filter_context_eq hlevels hmessages, List.nil_append] at hcontext
  rw [hfields, hcontext]
  rfl

theorem plainPair_pairs_iff : (∀ p ∈ call.pairs, PlainPair p) ↔
    (∀ c ∈ call.level.toList, IsPlain c) ∧ (∀ c ∈ call.message.toList, IsPlain c) ∧
      ∀ p ∈ call.context, PlainPair p := by
  rw [LogCall.pairs, List.forall_mem_cons, List.forall_mem_cons]
  exact and_congr (and_iff_right plain_level) (and_congr (and_iff_right plain_msg) Iff.rfl)

/-- Exactly the calls whose texts need no escapes, and whose keys have no colons, are parsed
as what they were. -/
theorem parse_faithful_iff (call : LogCall) (hkeys : (call.context.map Prod.fst).Nodup)
    (hcontext : ∀ p ∈ call.context, p.1 ≠ "level" ∧ p.1 ≠ "msg" ∧ p.1 ≠ "message") :
    parseLogJson call.json = some ⟨call.level, call.message, call.context⟩ ↔
      (∀ c ∈ call.level.toList, IsPlain c) ∧ (∀ c ∈ call.message.toList, IsPlain c) ∧
        ∀ p ∈ call.context, PlainPair p := by
  have hmessage : call.message.isEmpty = false := by simpa using call.message_ne
  rw [← plainPair_pairs_iff, ← fieldsOf_eq_iff none_ne_backslash, LogCall.json,
    entry_eq hkeys hcontext, parseLogJson_object call.pairs_ne_nil]
  constructor
  · intro h
    split at h
    case isTrue => cases h
    case isFalse => exact fieldsOf_of_faithful (Option.some.inj h)
  · intro h
    rw [h, entryOf_pairs fun p hp => slot_eq_context (hcontext p hp)]
    simp [hmessage]

/-- A call that is parsed as what it was. -/
theorem parse_faithful_iff_usage :
    parseLogJson (LogCall.json ⟨"Memory high", "warn", [("usage", "10485760")], by decide⟩) =
      some ⟨"warn", "Memory high", [("usage", "10485760")]⟩ :=
  (parse_faithful_iff ⟨"Memory high", "warn", [("usage", "10485760")], by decide⟩ (by decide)
    (by decide)).2 ⟨forall_mem_of_all (by decide), forall_mem_of_all (by decide), by decide⟩

/-- A message with quotes in it. -/
def quoting : LogCall := ⟨"say \"hi\"", "info", [], by decide⟩

/-- A level with a backslash at its end. -/
def trailing : LogCall := ⟨"done", "a\\", [], by decide⟩

/-- The backslashes stay in the message, and the last quote is lost; of the other call there
is no entry at all. -/
theorem escapes_kept :
    parseLogJson quoting.json = some ⟨"info", "say \\\"hi\\", []⟩ ∧
      quoting.message ≠ "say \\\"hi\\" ∧ parseLogJson trailing.json = none := by
  have hquoting : quoting.json = object quoting.pairs := rfl
  have htrailing : trailing.json = object trailing.pairs := rfl
  refine ⟨?_, by decide, ?_⟩
  · rw [hquoting, parseLogJson_object quoting.pairs_ne_nil]
    decide
  · rw [htrailing, parseLogJson_object trailing.pairs_ne_nil]
    decide

end Turbine.Features
