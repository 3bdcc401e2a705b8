import Mathlib.Algebra.Order.BigOperators.Group.List
import Mathlib.Algebra.Order.Ring.Nat
import Turbine.Base.JsonText

/-!
# Turbine.Base.JsonWeight

How many characters the strings of a JSON document have, its keys apart, by its value and
by its text.  A text that is put between quotes without escapes either stands for itself
or loses a character, which cannot be made up for.

* `Value.weigh_tokens`: the strings of a value weigh as much as the string tokens that have
  no colon behind them;
* `strings_step`, `strings_run_lt`: no character adds more than one to the strings that are
  read, and a quote or a backslash in a string adds none.
-/

namespace Turbine.Base.JsonText

/-! ## weights -/

variable {m m' : Mode} {c : Char} {cs : List Char} {ts us : List Token} {r : Result}

namespace Value

mutual

/-- How many characters the strings of a value have, without the keys. -/
def weight : Value → Nat
  | .null | .bool _ | .num _ => 0
  | .str text => text.length
  | .arr values => elementWeight values
  | .obj members => memberWeight members

def elementWeight : List Value → Nat
  | [] => 0
  | v :: vs => v.weight + elementWeight vs

def memberWeight : List (List Char × Value) → Nat
  | [] => 0
  | (_, v) :: ms => v.weight + memberWeight ms

end

end Value

/-- The characters of a string token. -/
def Token.size : Token → Nat
  | .str text => text.length
  | _ => 0

/-- The characters of all string tokens. -/
def strings (ts : List Token) : Nat := (ts.map Token.size).sum

@[simp] theorem strings_nil : strings [] = 0 := rfl

@[simp] theorem strings_cons (t : Token) (ts : List Token) :
    strings (t :: ts) = t.size + strings ts := by
  rw [strings, List.map_cons, List.sum_cons, strings]

@[simp] theorem strings_append (ts us : List Token) :
    strings (ts ++ us) = strings ts + strings us := by
  rw [strings, List.map_append, List.sum_append, strings, strings]

/-- The characters of the string tokens that are not keys, which are those with a colon
behind them.  `pending` is the size of the token before. -/
def weigh (pending : Nat) : List Token → Nat
  | [] => pending
  | .colon :: ts => weigh 0 ts
  | .str text :: ts => pending + weigh text.length ts
  | _ :: ts => pending + weigh 0 ts

theorem weigh_le {pending : Nat} : weigh pending ts ≤ pending + weigh 0 ts := by
  cases ts with
  | nil => simp [weigh]
  | cons t ts => cases t <;> simp [weigh]

theorem weigh_append_le (pending : Nat) (ts us : List Token) :
    weigh pending (ts ++ us) ≤ pending + strings ts + weigh 0 us := by
  induction ts generalizing pending with
  | nil => simpa [strings] using weigh_le
  | cons t ts ih =>
    cases t with
    | str text =>
      have hrest := ih text.length
      simp only [List.cons_append, weigh, strings_cons, Token.size] at hrest ⊢
      omega
    | _ =>
      have hrest := ih 0
      simp only [List.cons_append, weigh, strings_cons, Token.size] at hrest ⊢
      omega

/-- A key is not weighed. -/
def NoColon (ts : List Token) : Prop := ts.head? ≠ some .colon

theorem noColon_nil : NoColon [] := by simp [NoColon]

theorem weigh_of_noColon {pending : Nat} (h : NoColon ts) :
    weigh pending ts = pending + weigh 0 ts := by
  cases ts with
  | nil => simp [weigh]
  | cons t ts =>
    cases t with
    | colon => exact absurd rfl h
    | _ => simp [weigh]

namespace Value

mutual

/-- The tokens of a value in front of others. -/
theorem weigh_tokens : ∀ (v : Value) (pending : Nat) {ts : List Token}, NoColon ts →
    weigh pending (v.tokens ++ ts) = pending + v.weight + weigh 0 ts
  | .null, _, _, _ => by simp [tokens, weigh, weight]
  | .bool _, _, _, _ => by simp [tokens, weigh, weight]
  | .num _, _, _, _ => by simp [tokens, weigh, weight]
  | .str text, _, _, h => by
    simp only [tokens, List.singleton_append, weigh, weight]
    rw [weigh_of_noColon h, Nat.add_assoc]
  | .arr values, _, ts, h => by
    simp only [tokens, List.cons_append, List.append_assoc, weigh, weight, List.nil_append]
    rw [weigh_elementTokens true values]
    simp [weigh, Nat.add_assoc]
  | .obj members, _, ts, h => by
    simp only [tokens, List.cons_append, List.append_assoc, weigh, weight, List.nil_append]
    rw [weigh_memberTokens true members]
    simp [weigh, Nat.add_assoc]

theorem weigh_elementTokens : ∀ (first : Bool) (vs : List Value) (ts : List Token),
    weigh 0 (elementTokens first vs ++ .rbracket :: ts) =
      elementWeight vs + weigh 0 (.rbracket :: ts)
  | _, [], ts => by simp [elementTokens, elementWeight]
  | first, v :: vs, ts => by
    have hnext : NoColon (elementTokens false vs ++ .rbracket :: ts) := by
      cases vs <;> simp [NoColon, elementTokens]
    have hvalue := v.weigh_tokens 0 hnext
    have hrest := weigh_elementTokens false vs ts
    cases first with
    | true =>
      simp only [elementTokens, elementWeight, if_true, List.nil_append, List.append_assoc]
      omega
    | false =>
      simp only [elementTokens, elementWeight, Bool.false_eq_true, if_false, List.cons_append,
        List.nil_append, List.append_assoc, weigh] at hvalue hrest ⊢
      omega

theorem weigh_memberTokens : ∀ (first : Bool) (ms : List (List Char × Value)) (ts : List Token),
    weigh 0 (memberTokens first ms ++ .rbrace :: ts) =
      memberWeight ms + weigh 0 (.rbrace :: ts)
  | _, [], ts => by simp [memberTokens, memberWeight]
  | first, (key, v) :: ms, ts => by
    have hnext : NoColon (memberTokens false ms ++ .rbrace :: ts) := by
      cases ms <;> simp [NoColon, memberTokens]
    have hvalue := v.weigh_tokens 0 hnext
    have hrest := weigh_memberTokens false ms ts
    cases first with
    | true =>
      simp only [memberTokens, memberWeight, if_true, List.nil_append, List.append_assoc,
        List.cons_append, weigh] at hvalue hrest ⊢
      omega
    | false =>
      simp only [memberTokens, memberWeight, Bool.false_eq_true, if_false, List.cons_append,
        List.nil_append, List.append_assoc, weigh] at hvalue hrest ⊢
      omega

end

end Value

theorem weigh_of_tokens (v : Value) : weigh 0 v.tokens = v.weight := by
  have h := v.weigh_tokens 0 noColon_nil
  simpa [weigh] using h

theorem Value.elementWeight_eq (vs : List Value) : elementWeight vs = (vs.map weight).sum := by
  induction vs with
  | nil => rfl
  | cons v vs ih => rw [elementWeight, ih, List.map_cons, List.sum_cons]

theorem Value.memberWeight_eq (ms : List (List Char × Value)) :
    memberWeight ms = (ms.map fun member => member.2.weight).sum := by
  induction ms with
  | nil => rfl
  | cons member ms ih => rw [memberWeight, ih, List.map_cons, List.sum_cons]

theorem Value.weight_le_of_mem {v w : Value} {key : List Char} (h : w ∈ v.valuesOf key) :
    w.weight ≤ v.weight := by
  cases v with
  | obj members =>
    obtain ⟨member, hmember, rfl⟩ := List.mem_map.1 h
    rw [weight, memberWeight_eq]
    exact List.le_sum_of_mem (List.mem_map_of_mem (List.mem_of_mem_filter hmember))
  | _ => simp [valuesOf] at h

/-! ## what is written between two quotes -/

/-- The characters of the string that is being read. -/
def Mode.pending : Mode → Nat
  | .outside | .word _ => 0
  | .string parts | .escape parts | .unicode parts _ => parts.length

theorem length_decode_le (high : Option Nat) (parts : List Part) :
    (decode high parts).length ≤ parts.length + (lone high).length := by
  induction parts generalizing high with
  | nil => simp [decode]
  | cons part parts ih =>
    have hnone := ih none
    cases part with
    | char c =>
      simp only [decode, lone, List.length_append, List.length_cons, List.length_nil] at hnone ⊢
      omega
    | unit n =>
      have hsome := ih (some n)
      simp only [lone, List.length_nil, List.length_singleton] at hnone hsome
      rw [decode]
      split_ifs <;> simp only [List.length_append, List.length_cons] <;> omega

theorem size_of_mark {t : Token} (h : mark c = some t) : t.size = 0 := by
  simp only [mark] at h
  split_ifs at h <;> cases h <;> rfl

theorem size_of_classify {text : List Char} {t : Token} (h : classify text = some t) :
    t.size = 0 := by
  simp only [classify] at h
  split_ifs at h <;> cases h <;> rfl

theorem strings_stepOutside (c : Char) :
    strings (stepOutside c).2 + (stepOutside c).1.pending = 0 := by
  rw [stepOutside]
  split_ifs
  · rfl
  · rfl
  · cases h : mark c with
    | none => rfl
    | some t => simp [Mode.pending, size_of_mark h]

/-- A character adds one character at most. -/
theorem strings_step (h : step m c = some (m', ts)) : strings ts + m'.pending ≤ m.pending + 1 := by
  have houtside := strings_stepOutside c
  cases m with
  | outside =>
    have hres : stepOutside c = (m', ts) := Option.some.inj h
    simp only [hres] at houtside
    omega
  | word text =>
    simp only [step] at h
    split at h
    · obtain ⟨rfl, rfl⟩ := Prod.mk.inj (Option.some.inj h)
      simp [Mode.pending]
    · obtain ⟨t, ht, heq⟩ := Option.map_eq_some_iff.1 h
      obtain ⟨rfl, rfl⟩ := Prod.mk.inj heq
      rw [List.singleton_append, strings_cons, size_of_classify ht]
      omega
  | string parts =>
    simp only [step] at h
    split_ifs at h
    · obtain ⟨rfl, rfl⟩ := Prod.mk.inj (Option.some.inj h)
      have hle := length_decode_le none parts
      simp only [lone, List.length_nil] at hle
      simp only [strings_cons, strings_nil, Token.size, Mode.pending]
      omega
    · obtain ⟨rfl, rfl⟩ := Prod.mk.inj (Option.some.inj h)
      simp [Mode.pending]
    · obtain ⟨rfl, rfl⟩ := Prod.mk.inj (Option.some.inj h)
      simp [Mode.pending]
  | escape parts =>
    simp only [step] at h
    split at h
    · obtain ⟨rfl, rfl⟩ := Prod.mk.inj (Option.some.inj h)
      simp [Mode.pending]
    · obtain ⟨d, -, heq⟩ := Option.map_eq_some_iff.1 h
      obtain ⟨rfl, rfl⟩ := Prod.mk.inj heq
      simp [Mode.pending]
  | unicode parts digits =>
    simp only [step] at h
    obtain ⟨d, -, heq⟩ := Option.map_eq_some_iff.1 h
    split at heq <;> obtain ⟨rfl, rfl⟩ := Prod.mk.inj heq <;> simp [Mode.pending]

/-- A quote or a backslash adds none. -/
theorem strings_step_special {parts : List Part} (hc : c = '"' ∨ c = '\\')
    (h : step (.string parts) c = some (m', ts)) : strings ts + m'.pending ≤ parts.length := by
  obtain rfl | rfl := hc
  · obtain ⟨rfl, rfl⟩ := Prod.mk.inj (Option.some.inj h)
    simpa [Mode.pending, Token.size, lone] using length_decode_le none parts
  · obtain ⟨rfl, rfl⟩ := Prod.mk.inj (Option.some.inj h)
    simp [Mode.pending]

theorem strings_run (h : run m cs = some (m', ts)) :
    strings ts + m'.pending ≤ m.pending + cs.length := by
  induction cs generalizing m ts with
  | nil =>
    obtain ⟨rfl, rfl⟩ := Prod.mk.inj (Option.some.inj h)
    simp
  | cons c cs ih =>
    obtain ⟨m₁, ts₁, ⟨m₂, ts₂⟩, hstep, hrun, heq⟩ := run_cons_eq_some.1 h
    rw [Result.behind_mk] at heq
    obtain ⟨rfl, rfl⟩ := Prod.mk.inj heq
    have hone := strings_step hstep
    have hrest := ih hrun
    rw [strings_append, List.length_cons]
    omega

/-- The text of a string either stands for itself or weighs less than it is long. -/
theorem strings_run_lt {parts : List Part} (h : run (.string parts) cs = some (m', ts)) :
    (∀ c ∈ cs, Bare c) ∨ strings ts + m'.pending < parts.length + cs.length := by
  induction cs generalizing parts ts with
  | nil => exact .inl (List.forall_mem_nil _)
  | cons c cs ih =>
    obtain ⟨m₁, ts₁, ⟨m₂, ts₂⟩, hstep, hrun, heq⟩ := run_cons_eq_some.1 h
    rw [Result.behind_mk] at heq
    obtain ⟨rfl, rfl⟩ := Prod.mk.inj heq
    by_cases hc : c = '"' ∨ c = '\\'
    · have hone := strings_step_special hc hstep
      have hrest := strings_run hrun
      rw [strings_append, List.length_cons]
      exact .inr (by omega)
    · obtain ⟨hquote, hbackslash⟩ := not_or.1 hc
      rw [step, if_neg hquote, if_neg hbackslash, Option.ite_none_left_eq_some] at hstep
      obtain ⟨hcontrol, hstep⟩ := hstep
      obtain ⟨rfl, rfl⟩ := Prod.mk.inj (Option.some.inj hstep)
      obtain hbare | hlt := ih hrun
      · exact .inl (List.forall_mem_cons.2 ⟨⟨hquote, hbackslash, by omega⟩, hbare⟩)
      · rw [List.length_append, List.length_singleton] at hlt
        rw [strings_append, List.length_cons]
        exact .inr (by rw [strings_nil]; omega)

/-- Where a quote, a comma and a new line can be read, a string ends: a string that
began with the quote would have the new line in it. -/
theorem string_of_run (h : run m ('"' :: ',' :: '\n' :: cs) = some r) :
    ∃ parts, m = .string parts := by
  have hnone : ∀ parts, run (.string parts) (',' :: '\n' :: cs) = none := fun _ => rfl
  have hinside : ∀ parts q, run (.string parts) (',' :: '\n' :: cs) ≠ some q :=
    fun parts q hrun => Option.some_ne_none q (hrun.symm.trans (hnone parts))
  obtain ⟨m', ts, q, hstep, hrun, -⟩ := run_cons_eq_some.1 h
  cases m with
  | string parts => exact ⟨parts, rfl⟩
  | outside =>
    obtain ⟨rfl, -⟩ := Prod.mk.inj (Option.some.inj hstep)
    exact absurd hrun (hinside _ _)
  | word text =>
    obtain ⟨t, -, heq⟩ := Option.map_eq_some_iff.1 hstep
    obtain ⟨rfl, -⟩ := Prod.mk.inj heq
    exact absurd hrun (hinside _ _)
  | escape parts =>
    obtain ⟨rfl, -⟩ := Prod.mk.inj (Option.some.inj hstep)
    exact absurd hrun (hinside _ _)
  | unicode parts digits => exact absurd hstep (by simp [step, hexValue])

/-- A text that is written between quotes as it is, with fixed text before and behind it:
what was meant as one string weighs no more than its characters, and less if it is not read
as that string. -/
theorem run_written {front back rest : List Char} {ts₀ ts₁ : List Token}
    (hfront : run .outside front = some (.string [], ts₀)) (hback : Reads (',' :: '\n' :: back) ts₁)
    (h : run .outside (front ++ (cs ++ '"' :: ',' :: '\n' :: (back ++ rest))) = some (m, ts)) :
    ∃ mid us, run .outside rest = some (m, us) ∧ ts = ts₀ ++ (mid ++ (ts₁ ++ us)) ∧
      strings mid ≤ cs.length ∧ ((∀ c ∈ cs, Bare c) ∨ strings mid < cs.length) := by
  obtain ⟨m₀, us₀, ⟨m₁, us₁⟩, hrun, hrun₁, heq⟩ := run_append_eq_some.1 h
  obtain ⟨rfl, rfl⟩ := Prod.mk.inj (Option.some.inj (hfront.symm.trans hrun))
  obtain ⟨m₂, us₂, ⟨m₃, us₃⟩, hcs, hquote, heq₁⟩ := run_append_eq_some.1 hrun₁
  obtain ⟨parts, rfl⟩ := string_of_run hquote
  have hclose : step (.string parts) '"' = some (.outside, [.str (decode none parts)]) := rfl
  rw [run_cons_of_step hclose, Option.map_eq_some_iff] at hquote
  obtain ⟨⟨m₄, us₄⟩, hrun₄, heq₂⟩ := hquote
  obtain ⟨m₅, us₅, ⟨m₆, us₆⟩, hrun₅, hrest, heq₃⟩ := run_append_eq_some.1
    (show run .outside ((',' :: '\n' :: back) ++ rest) = some (m₄, us₄) from hrun₄)
  obtain ⟨rfl, rfl⟩ := Prod.mk.inj (Option.some.inj (hback.symm.trans hrun₅))
  simp only [Result.behind_mk, Prod.mk.injEq] at heq heq₁ heq₂ heq₃
  obtain ⟨rfl, rfl⟩ := heq
  obtain ⟨rfl, rfl⟩ := heq₁
  obtain ⟨rfl, rfl⟩ := heq₂
  obtain ⟨rfl, rfl⟩ := heq₃
  have hdecode := length_decode_le none parts
  have hall := strings_run hcs
  have hless := strings_run_lt hcs
  simp only [lone, List.length_nil, Mode.pending, Nat.zero_add] at hdecode hall hless
  have hmid : strings (us₂ ++ [.str (decode none parts)]) ≤ strings us₂ + parts.length := by
    simpa [Token.size] using hdecode
  exact ⟨_, us₆, hrest, by simp, hmid.trans hall, hless.imp_right hmid.trans_lt⟩

end Turbine.Base.JsonText
