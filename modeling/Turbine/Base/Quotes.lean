import Turbine.Base.Literals

/-!
# Turbine.Base.Quotes

Literals whose text was made by escaping the quotes only.

* `Quotable`: no backslash stands before a backslash or a quote, the closing one included;
* `lex_literal_iff`: exactly then the literal denotes what it was made from.
-/

namespace Turbine.Base

/-- A literal's text in which only the quotes are escaped. -/
def escapeQuotes (cs : List Char) : List Char :=
  cs.flatMap fun c => if c = '\'' then ['\\', '\''] else [c]

/-- No backslash stands before a character that it would escape. -/
def Quotable (cs : List Char) : Prop :=
  (cs ++ ['\'']).IsChain fun c d => c = '\\' → d ≠ '\\' ∧ d ≠ '\''

instance {cs : List Char} : Decidable (Quotable cs) :=
  inferInstanceAs (Decidable ((cs ++ ['\'']).IsChain _))

variable {c : Char} {cs text : List Char} {tokens : List Token} {l : Lexer}

theorem escapeQuotes_cons :
    escapeQuotes (c :: cs) = (if c = '\'' then ['\\', '\''] else [c]) ++ escapeQuotes cs :=
  List.flatMap_cons

@[simp] theorem escapeQuotes_quote :
    escapeQuotes ('\'' :: cs) = '\\' :: '\'' :: escapeQuotes cs := escapeQuotes_cons

theorem escapeQuotes_other (h : c ≠ '\'') : escapeQuotes (c :: cs) = c :: escapeQuotes cs := by
  rw [escapeQuotes_cons, if_neg h, List.singleton_append]

theorem escapeQuotes_append {ds : List Char} :
    escapeQuotes (cs ++ ds) = escapeQuotes cs ++ escapeQuotes ds := List.flatMap_append

theorem escapeQuotes_of_not_mem (h : '\'' ∉ cs) : escapeQuotes cs = cs := by
  induction cs with
  | nil => rfl
  | cons c cs ih =>
    obtain ⟨hc, hcs⟩ := List.ne_and_not_mem_of_not_mem_cons h
    rw [escapeQuotes_other hc.symm, ih hcs]

theorem quote_mem_escapeQuotes (h : '\'' ∈ cs) : '\'' ∈ escapeQuotes cs :=
  List.mem_flatMap.2 ⟨'\'', h, by decide⟩

/-- A quote in an escaped text stands behind a backslash. -/
theorem backslash_suffix {front back : List Char}
    (h : escapeQuotes cs = front ++ '\'' :: back) : ['\\'] <:+ front := by
  induction cs generalizing front with
  | nil => simp [escapeQuotes] at h
  | cons c cs ih =>
    by_cases hquote : c = '\''
    · subst hquote
      rw [escapeQuotes_quote] at h
      match front, h with
      | ['\\'], _ => exact List.suffix_rfl
      | _ :: _ :: front, h =>
        have hrest := ih (List.cons.inj (List.cons.inj h).2).2
        exact hrest.trans ((List.suffix_cons _ _).trans (List.suffix_cons _ _))
    · rw [escapeQuotes_other hquote] at h
      cases front with
      | nil => exact absurd (List.cons.inj h).1 hquote
      | cons d front => exact (ih (List.cons.inj h).2).trans (List.suffix_cons _ _)

/-- How a text ends is not changed, unless there are quotes in it or it begins with a
backslash. -/
theorem suffix_escapeQuotes_iff {w : List Char} (hquote : '\'' ∉ w) (hbackslash : '\\' ∉ w) :
    w <:+ escapeQuotes cs ↔ w <:+ cs := by
  constructor
  · intro h
    induction cs with
    | nil => exact h
    | cons c cs ih =>
      by_cases hc : c = '\''
      · subst hc
        rw [escapeQuotes_quote] at h
        rcases List.suffix_cons_iff.1 h with rfl | h
        · simp at hbackslash
        · rcases List.suffix_cons_iff.1 h with rfl | h
          · simp at hquote
          · exact (ih h).trans (List.suffix_cons _ _)
      · rw [escapeQuotes_other hc] at h
        rcases List.suffix_cons_iff.1 h with rfl | h
        · have hmem : '\'' ∉ cs := fun hmem =>
            hquote (List.mem_cons_of_mem _ (quote_mem_escapeQuotes hmem))
          simp [escapeQuotes_of_not_mem hmem]
        · exact (ih h).trans (List.suffix_cons _ _)
  · rintro ⟨front, rfl⟩
    rw [escapeQuotes_append, escapeQuotes_of_not_mem hquote]
    exact List.suffix_append _ _

theorem quotable_cons_of_ne (h : c ≠ '\\') : Quotable (c :: cs) ↔ Quotable cs := by
  cases cs with
  | nil => simp [Quotable, h]
  | cons d cs => simp [Quotable, h]

theorem not_quotable_cons {d : Char} (h : d = '\\' ∨ d = '\'') : ¬ Quotable ('\\' :: d :: cs) := by
  rcases h with rfl | rfl <;> simp [Quotable]

theorem quotable_cons_cons {d : Char} (h : d ≠ '\\') (h' : d ≠ '\'') :
    Quotable ('\\' :: d :: cs) ↔ Quotable cs := by
  refine Iff.trans ?_ (quotable_cons_of_ne h)
  simp [Quotable, h, h']

/-! ## steps of the lexer -/

namespace Lexer

theorem step_quote : step ⟨.literal text, tokens⟩ '\'' = ⟨.code, tokens ++ [.quoted text]⟩ := rfl

theorem step_backslash : step ⟨.literal text, tokens⟩ '\\' = ⟨.escape text, tokens⟩ := rfl

theorem step_literal (h : c ≠ '\'') (h' : c ≠ '\\') :
    step ⟨.literal text, tokens⟩ c = ⟨.literal (text ++ [c]), tokens⟩ := by
  simp [step, h, h']

theorem step_escaped (h : c = '\'' ∨ c = '\\') :
    step ⟨.escape text, tokens⟩ c = ⟨.literal (text ++ [c]), tokens⟩ := by
  simp [step, h]

theorem step_escape (h : c ≠ '\'') (h' : c ≠ '\\') :
    step ⟨.escape text, tokens⟩ c = ⟨.literal (text ++ ['\\', c]), tokens⟩ := by
  simp [step, h, h']

theorem tokens_prefix_step : l.tokens <+: (l.step c).tokens := by
  obtain ⟨mode, tokens⟩ := l
  cases mode with
  | code | number | literal | escape =>
    simp only [step, codeStep]
    split_ifs <;> simp

theorem tokens_prefix_run : l.tokens <+: (l.run cs).tokens := by
  induction cs generalizing l with
  | nil => exact List.prefix_rfl
  | cons c cs ih => exact tokens_prefix_step.trans ih

/-- An escaped quote in a literal. -/
theorem run_literal_quote {rest : List Char} :
    run ⟨.literal text, tokens⟩ (escapeQuotes ('\'' :: cs) ++ rest) =
      run ⟨.literal (text ++ ['\'']), tokens⟩ (escapeQuotes cs ++ rest) := by
  rw [escapeQuotes_quote, List.cons_append, List.cons_append, run_cons, run_cons, step_backslash,
    step_escaped (.inl rfl)]

/-- Behind a backslash, its own backslash is the one that is escaped, and it closes the
literal. -/
theorem run_escape_quote {rest : List Char} :
    run ⟨.escape text, tokens⟩ (escapeQuotes ('\'' :: cs) ++ rest) =
      run ⟨.code, tokens ++ [.quoted (text ++ ['\\'])]⟩ (escapeQuotes cs ++ rest) := by
  rw [escapeQuotes_quote, List.cons_append, List.cons_append, run_cons, run_cons,
    step_escaped (.inr rfl), step_quote]

theorem run_other {rest : List Char} (h : c ≠ '\'') :
    l.run (escapeQuotes (c :: cs) ++ rest) = (l.step c).run (escapeQuotes cs ++ rest) := by
  rw [escapeQuotes_other h, List.cons_append, run_cons]

end Lexer

/-! ## what a literal denotes -/

/-- A literal that is closed is the next token, whatever comes behind it. -/
theorem eq_of_run_code {u rest : List Char} {more : List Token}
    (h : (Lexer.run ⟨.code, tokens ++ [.quoted text]⟩ rest).tokens = tokens ++ .quoted u :: more) :
    u = text := by
  have hfront : tokens ++ [.quoted text] <+: tokens ++ .quoted u :: more := by
    rw [← h]
    exact Lexer.tokens_prefix_run (l := ⟨.code, _⟩)
  obtain ⟨rest', hrest⟩ := (List.prefix_append_right_inj tokens).1 hfront
  exact (Token.quoted.inj (List.cons.inj hrest).1).symm

/-- The first literal that is read is no longer than what it was made from. -/
theorem length_le_of_run {u : List Char} {more : List Token} :
    ((Lexer.run ⟨.literal text, tokens⟩ (escapeQuotes cs ++ ['\''])).tokens =
        tokens ++ .quoted u :: more → u.length ≤ text.length + cs.length) ∧
      ((Lexer.run ⟨.escape text, tokens⟩ (escapeQuotes cs ++ ['\''])).tokens =
        tokens ++ .quoted u :: more → u.length ≤ text.length + 1 + cs.length) := by
  induction cs generalizing text with
  | nil =>
    refine ⟨fun h => ?_, fun h => ?_⟩
    · obtain rfl := eq_of_run_code h
      simp
    · simp [escapeQuotes, Lexer.step] at h
  | cons c cs ih =>
    by_cases hquote : c = '\''
    · subst hquote
      rw [Lexer.run_literal_quote, Lexer.run_escape_quote]
      refine ⟨fun h => ?_, fun h => ?_⟩
      · have hle := ih.1 h
        grind
      · obtain rfl := eq_of_run_code h
        grind
    rw [Lexer.run_other hquote, Lexer.run_other hquote]
    by_cases hbackslash : c = '\\'
    · subst hbackslash
      rw [Lexer.step_backslash, Lexer.step_escaped (.inr rfl)]
      refine ⟨fun h => ?_, fun h => ?_⟩
      · have hle := ih.2 h
        grind
      · have hle := ih.1 h
        grind
    · rw [Lexer.step_literal hquote hbackslash, Lexer.step_escape hquote hbackslash]
      refine ⟨fun h => ?_, fun h => ?_⟩
      · have hle := ih.1 h
        grind
      · have hle := ih.1 h
        grind

/-- A literal denotes what it was made from iff that is quotable. -/
theorem run_escapeQuotes_iff :
    (Lexer.run ⟨.literal text, tokens⟩ (escapeQuotes cs ++ ['\'']) =
        ⟨.code, tokens ++ [.quoted (text ++ cs)]⟩ ↔ Quotable cs) ∧
      (Lexer.run ⟨.escape text, tokens⟩ (escapeQuotes cs ++ ['\'']) =
        ⟨.code, tokens ++ [.quoted (text ++ '\\' :: cs)]⟩ ↔ Quotable ('\\' :: cs)) := by
  induction cs generalizing text with
  | nil =>
    refine ⟨?_, ?_⟩
    · simp [escapeQuotes, Lexer.step, Quotable]
    · simp [escapeQuotes, Lexer.step, Quotable]
  | cons c cs ih =>
    by_cases hquote : c = '\''
    · subst hquote
      rw [Lexer.run_literal_quote, Lexer.run_escape_quote, List.append_cons text '\'' cs, ih.1,
        quotable_cons_of_ne (by decide)]
      refine ⟨Iff.rfl, iff_of_false (fun h => ?_) (not_quotable_cons (.inr rfl))⟩
      -- the literal was closed behind the backslash
      have hclosed := eq_of_run_code (congrArg Lexer.tokens h)
      simp at hclosed
    rw [Lexer.run_other hquote, Lexer.run_other hquote]
    by_cases hbackslash : c = '\\'
    · subst hbackslash
      rw [Lexer.step_backslash, Lexer.step_escaped (.inr rfl), ih.2]
      refine ⟨Iff.rfl, iff_of_false (fun h => ?_) (not_quotable_cons (.inl rfl))⟩
      have hle := length_le_of_run.1 (congrArg Lexer.tokens h)
      grind
    · have hmore : text ++ '\\' :: c :: cs = (text ++ ['\\', c]) ++ cs := by simp
      rw [Lexer.step_literal hquote hbackslash, Lexer.step_escape hquote hbackslash,
        List.append_cons text c cs, hmore, ih.1, ih.1, quotable_cons_of_ne hbackslash,
        quotable_cons_cons hbackslash hquote]
      exact ⟨Iff.rfl, Iff.rfl⟩

/-- A semicolon behind a literal. -/
theorem Lexer.finish_semicolon_iff :
    (l.step ';').finish = some (tokens ++ [.quoted text, .mark ';']) ↔
      l = ⟨.code, tokens ++ [.quoted text]⟩ := by
  have hpair : tokens ++ [Token.quoted text, .mark ';'] =
      tokens ++ [Token.quoted text] ++ [.mark ';'] := by simp
  have hdigit : ';'.isDigit = false := by decide
  rw [hpair]
  obtain ⟨mode, ts⟩ := l
  cases mode with
  | code =>
    have hstep : step ⟨.code, ts⟩ ';' = ⟨.code, ts ++ [.mark ';']⟩ := by
      simp [step, codeStep, hdigit]
    rw [hstep, finish, Option.some_inj, List.append_left_inj, Lexer.mk.injEq]
    simp
  | number digits =>
    have hstep : step ⟨.number digits, ts⟩ ';' =
        ⟨.code, ts ++ [.number digits] ++ [.mark ';']⟩ := by
      simp [step, codeStep, hdigit]
    have hne : ts ++ [Token.number digits] ≠ tokens ++ [Token.quoted text] :=
      fun h => absurd (List.append_inj_right' h rfl) (by simp)
    rw [hstep, finish, Option.some_inj, List.append_left_inj, Lexer.mk.injEq]
    simp [hne]
  | literal | escape => simp [step, finish]

/-- A statement that ends with a literal. -/
theorem lex_literal_iff {head : String} (hhead : Closed head) :
    lex (head ++ "'" ++ String.ofList (escapeQuotes cs) ++ "';") =
        some (codeTokens head ++ [.quoted cs, .mark ';']) ↔ Quotable cs := by
  have hchars : (head ++ "'" ++ String.ofList (escapeQuotes cs) ++ "';").toList =
      head.toList ++ ('\'' :: (escapeQuotes cs ++ ['\''] ++ [';'])) := by simp
  have hopen : Lexer.step ⟨.code, codeTokens head⟩ '\'' = ⟨.literal [], codeTokens head⟩ := rfl
  have hread : Lexer.run ⟨.literal [], codeTokens head⟩ (escapeQuotes cs ++ ['\'']) =
      ⟨.code, codeTokens head ++ [.quoted cs]⟩ ↔ Quotable cs := run_escapeQuotes_iff.1
  rw [lex, hchars, Lexer.run_append, reads_of_closed hhead [], List.nil_append, Lexer.run_cons,
    hopen, Lexer.run_append, Lexer.run_cons, Lexer.run_nil, Lexer.finish_semicolon_iff, hread]

end Turbine.Base
