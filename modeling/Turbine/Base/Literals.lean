import Mathlib.Data.List.Basic
import Turbine.Base.Separators

/-!
# Turbine.Base.Literals

Program texts with single-quoted string literals, in which a backslash before a quote or
another backslash is an escape and any other backslash stands for itself.  Comments and
other literals are not told apart from code: the texts have none.

* `lex_printAll`: a text that is printed from pieces is read back as these pieces, whatever
  the literals hold;
* `shapes_eq`: so its statements have the shapes of the pieces.
-/

namespace Turbine.Base

/-! ## tokens -/

/-- A literal is a token by what it denotes. -/
inductive Token
  | mark (c : Char)
  | number (digits : List Char)
  | quoted (text : List Char)
deriving DecidableEq, Repr

/-- Where in the text the lexer is: in code, in a number, in a literal, or in a literal
behind a backslash. -/
inductive Lexer.Mode
  | code
  | number (digits : List Char)
  | literal (text : List Char)
  | escape (text : List Char)
deriving DecidableEq, Repr

structure Lexer where
  mode : Lexer.Mode := .code
  tokens : List Token := []
deriving DecidableEq, Repr

namespace Lexer

/-- A character of code. -/
def codeStep (tokens : List Token) (c : Char) : Lexer :=
  if c = '\'' then ⟨.literal [], tokens⟩
  else if c.isDigit then ⟨.number [c], tokens⟩
  else ⟨.code, tokens ++ [.mark c]⟩

def step (l : Lexer) (c : Char) : Lexer :=
  match l.mode with
  | .code => codeStep l.tokens c
  | .number digits =>
    if c.isDigit then ⟨.number (digits ++ [c]), l.tokens⟩
    else codeStep (l.tokens ++ [.number digits]) c
  | .literal text =>
    if c = '\'' then ⟨.code, l.tokens ++ [.quoted text]⟩
    else if c = '\\' then ⟨.escape text, l.tokens⟩
    else ⟨.literal (text ++ [c]), l.tokens⟩
  | .escape text =>
    if c = '\'' ∨ c = '\\' then ⟨.literal (text ++ [c]), l.tokens⟩
    else ⟨.literal (text ++ ['\\', c]), l.tokens⟩

def run (l : Lexer) (cs : List Char) : Lexer := cs.foldl step l

/-- At the end of the text; a literal that is still open is an error. -/
def finish (l : Lexer) : Option (List Token) :=
  match l.mode with
  | .code => some l.tokens
  | .number digits => some (l.tokens ++ [.number digits])
  | .literal _ | .escape _ => none

/-- What was read before. -/
def behind (tokens : List Token) (l : Lexer) : Lexer := { l with tokens := tokens ++ l.tokens }

variable {l : Lexer} {tokens : List Token} {cs ds : List Char} {c : Char}

@[simp] theorem run_nil : l.run [] = l := rfl

@[simp] theorem run_cons : l.run (c :: cs) = (l.step c).run cs := rfl

theorem run_append : l.run (cs ++ ds) = (l.run cs).run ds := List.foldl_append

theorem step_behind : (behind tokens l).step c = behind tokens (l.step c) := by
  obtain ⟨mode, ts⟩ := l
  cases mode with
  | code | number | literal | escape =>
    simp only [step, behind, codeStep]
    split_ifs <;> simp

/-- What was read before has no say in what comes. -/
theorem run_behind : (behind tokens l).run cs = behind tokens (l.run cs) := by
  induction cs generalizing l with
  | nil => rfl
  | cons c cs ih => rw [run_cons, run_cons, step_behind, ih]

end Lexer

/-- The tokens of a text. -/
def lex (text : String) : Option (List Token) := (Lexer.run {} text.toList).finish

/-- The tokens of a stretch of code. -/
def codeTokens (text : String) : List Token := (Lexer.run {} text.toList).tokens

/-- Behind the text the lexer is in code again. -/
def Closed (text : String) : Prop := (Lexer.run {} text.toList).mode = .code

instance {text : String} : Decidable (Closed text) := inferInstanceAs (Decidable (_ = _))

/-- From code to code, over the given tokens. -/
def Reads (cs : List Char) (new : List Token) : Prop :=
  ∀ tokens, Lexer.run ⟨.code, tokens⟩ cs = ⟨.code, tokens ++ new⟩

variable {cs ds : List Char} {new new' : List Token} {text : String}

theorem reads_nil : Reads [] [] := by
  intro tokens
  rw [Lexer.run_nil, List.append_nil]

theorem Reads.append (h : Reads cs new) (h' : Reads ds new') : Reads (cs ++ ds) (new ++ new') := by
  intro tokens
  rw [Lexer.run_append, h, h', List.append_assoc]

theorem reads_of_closed (h : Closed text) : Reads text.toList (codeTokens text) := by
  intro tokens
  have hbehind : (⟨.code, tokens⟩ : Lexer) = Lexer.behind tokens {} := by simp [Lexer.behind]
  rw [hbehind, Lexer.run_behind, Lexer.behind, h]
  rfl

/-- A literal text is read character by character. -/
theorem closed_ofList (h : (Lexer.run {} cs).mode = .code) : Closed (String.ofList cs) := by
  rwa [Closed, String.toList_ofList]

theorem Closed.append {text' : String} (h : Closed text) (h' : Closed text') :
    Closed (text ++ text') := by
  have hreads := (reads_of_closed h).append (reads_of_closed h')
  rw [Closed, String.toList_append, hreads []]

theorem closed_join {ts : List String} (h : ∀ t ∈ ts, Closed t) : Closed (String.join ts) := by
  induction ts with
  | nil => exact closed_ofList rfl
  | cons t ts ih =>
    obtain ⟨ht, hts⟩ := List.forall_mem_cons.1 h
    rw [String.join_cons]
    exact ht.append (ih hts)

theorem Reads.lex (h : Reads text.toList new) : lex text = some new := by
  have hrun := h []
  rw [Base.lex, hrun]
  rfl

/-! ## literals -/

/-- The text of a literal between its quotes. -/
def escape (cs : List Char) : List Char :=
  cs.flatMap fun c => if c = '\\' ∨ c = '\'' then ['\\', c] else [c]

/-- An escaped text is read as what it stands for. -/
theorem run_escape (tokens : List Token) (text cs : List Char) :
    Lexer.run ⟨.literal text, tokens⟩ (escape cs) = ⟨.literal (text ++ cs), tokens⟩ := by
  induction cs generalizing text with
  | nil => simp [escape]
  | cons c cs ih =>
    have hcons : escape (c :: cs) =
        (if c = '\\' ∨ c = '\'' then ['\\', c] else [c]) ++ escape cs := List.flatMap_cons
    rw [hcons, Lexer.run_append]
    split
    case isTrue hspecial =>
      have htwo : Lexer.run ⟨.literal text, tokens⟩ ['\\', c] =
          ⟨.literal (text ++ [c]), tokens⟩ := by
        simp [Lexer.step, Or.comm.1 hspecial]
      rw [htwo, ih, List.append_assoc, List.singleton_append]
    case isFalse hplain =>
      obtain ⟨hbackslash, hquote⟩ := not_or.1 hplain
      have hone : Lexer.run ⟨.literal text, tokens⟩ [c] = ⟨.literal (text ++ [c]), tokens⟩ := by
        simp [Lexer.step, hbackslash, hquote]
      rw [hone, ih, List.append_assoc, List.singleton_append]

theorem reads_quoted (cs : List Char) : Reads ('\'' :: escape cs ++ ['\'']) [.quoted cs] := by
  intro tokens
  have hopen : Lexer.step ⟨.code, tokens⟩ '\'' = ⟨.literal [], tokens⟩ := rfl
  rw [List.cons_append, Lexer.run_cons, hopen, Lexer.run_append, run_escape]
  rfl

/-- A text that needs no escapes. -/
def Plain (cs : List Char) : Prop := ∀ c ∈ cs, c ≠ '\\' ∧ c ≠ '\''

-- by the characters of the text, not by all there are
instance : Decidable (Plain cs) :=
  decidable_of_iff (cs.all (fun c => decide (c ≠ '\\' ∧ c ≠ '\'')) = true) (by simp [Plain])

theorem plain_ofList (h : Plain cs) : Plain (String.ofList cs).toList := by
  rwa [String.toList_ofList]

theorem escape_of_plain (h : Plain cs) : escape cs = cs := by
  induction cs with
  | nil => rfl
  | cons c cs ih =>
    obtain ⟨hc, hcs⟩ := List.forall_mem_cons.1 h
    rw [escape, List.flatMap_cons, if_neg (by simp [hc]), ← escape, ih hcs, List.singleton_append]

theorem escape_append : escape (cs ++ ds) = escape cs ++ escape ds := List.flatMap_append

/-- Digits and the character behind them. -/
theorem reads_number {digits : List Char} {c : Char} (hne : digits ≠ [])
    (hdigits : ∀ d ∈ digits, d.isDigit = true) (hc : c.isDigit = false ∧ c ≠ '\'') :
    Reads (digits ++ [c]) [.number digits, .mark c] := by
  intro tokens
  have hmore : ∀ (more start : List Char), (∀ d ∈ more, d.isDigit = true) →
      Lexer.run ⟨.number start, tokens⟩ more = ⟨.number (start ++ more), tokens⟩ := by
    intro more
    induction more with
    | nil => simp
    | cons d more ih =>
      intro start hall
      obtain ⟨hd, hmore⟩ := List.forall_mem_cons.1 hall
      have hstep : Lexer.step ⟨.number start, tokens⟩ d = ⟨.number (start ++ [d]), tokens⟩ := by
        simp [Lexer.step, hd]
      rw [Lexer.run_cons, hstep, ih _ hmore, List.append_assoc, List.singleton_append]
  cases digits with
  | nil => exact absurd rfl hne
  | cons d digits =>
    obtain ⟨hd, hrest⟩ := List.forall_mem_cons.1 hdigits
    have hquote : d ≠ '\'' := by
      rintro rfl
      exact absurd hd (by decide)
    have hfirst : Lexer.step ⟨.code, tokens⟩ d = ⟨.number [d], tokens⟩ := by
      simp [Lexer.step, Lexer.codeStep, hquote, hd]
    have hlast : Lexer.run ⟨.number (d :: digits), tokens⟩ [c] =
        ⟨.code, tokens ++ [.number (d :: digits), .mark c]⟩ := by
      simp [Lexer.step, Lexer.codeStep, hc.1, hc.2]
    rw [List.cons_append, Lexer.run_cons, hfirst, Lexer.run_append, hmore _ _ hrest,
      List.singleton_append, hlast]

/-! ## pieces -/

/-- A part of a program: code as it stands, a literal that is escaped, a literal that is
written as it is, or a number with the character behind it. -/
inductive Piece
  | code (text : String)
  | quoted (text : String)
  | plain (text : String)
  | number (n : Nat) (next : Char)
deriving DecidableEq, Repr

namespace Piece

def print : Piece → String
  | .code text => text
  | .quoted text => "'" ++ String.ofList (escape text.toList) ++ "'"
  | .plain text => "'" ++ text ++ "'"
  | .number n next => toString n ++ String.singleton next

def tokens : Piece → List Token
  | .code text => codeTokens text
  | .quoted text | .plain text => [.quoted text.toList]
  | .number n next => [.number (Nat.toDigits 10 n), .mark next]

/-- What the fixed parts have to be like. -/
def Ok : Piece → Prop
  | .code text => Closed text
  | .quoted _ => True
  | .plain text => Plain text.toList
  | .number _ next => next.isDigit = false ∧ next ≠ '\''

/-- A piece is read as what it is, whatever stands around it. -/
theorem reads {p : Piece} (h : p.Ok) : Reads p.print.toList p.tokens := by
  cases p with
  | code text => exact reads_of_closed h
  | quoted text =>
    have hprint : (quoted text).print.toList = '\'' :: escape text.toList ++ ['\''] := by
      simp [print]
    rw [hprint]
    exact reads_quoted _
  | plain text =>
    have hprint : (plain text).print.toList = '\'' :: escape text.toList ++ ['\''] := by
      have hescape : escape text.toList = text.toList := escape_of_plain h
      simp [print, hescape]
    rw [hprint]
    exact reads_quoted _
  | number n next =>
    have hprint : (number n next).print.toList = Nat.toDigits 10 n ++ [next] := by
      simp [print, Nat.toString_eq_repr, Nat.toList_repr]
    rw [hprint]
    refine reads_number Nat.toDigits_ne_nil (fun d hd => ?_) h
    exact Nat.isDigit_of_mem_toDigits (by decide) (by decide) hd

end Piece

/-- The text of a program. -/
def printAll (ps : List Piece) : String := String.join (ps.map Piece.print)

/-- The tokens of a program. -/
def allTokens (ps : List Piece) : List Token := ps.flatMap Piece.tokens

/-- A printed program is read back piece by piece. -/
theorem lex_printAll {ps : List Piece} (h : ∀ p ∈ ps, p.Ok) :
    lex (printAll ps) = some (allTokens ps) := by
  have hreads : Reads (ps.flatMap fun p => p.print.toList) (allTokens ps) := by
    induction ps with
    | nil => exact reads_nil
    | cons p ps ih =>
      obtain ⟨hp, hps⟩ := List.forall_mem_cons.1 h
      exact (Piece.reads hp).append (ih hps)
  refine Reads.lex ?_
  rwa [printAll, String.toList_join, List.flatMap_map]

/-! ## shapes -/

/-- A token without what a literal or a number holds. -/
inductive Kind
  | mark (c : Char)
  | number
  | string
deriving DecidableEq, Repr

def Token.kind : Token → Kind
  | .mark c => .mark c
  | .number _ => .number
  | .quoted _ => .string

/-- The tokens between semicolons. -/
def statements (tokens : List Token) : List (List Token) := tokens.splitOn (.mark ';')

/-- The shapes of the statements. -/
def shapes (tokens : List Token) : List (List Kind) := (statements tokens).map (·.map Token.kind)

def kinds (ps : List Piece) : List Kind := (allTokens ps).map Token.kind

/-- The kinds of the tokens say what the statements look like. -/
theorem shapes_eq (tokens : List Token) :
    shapes tokens = (tokens.map Token.kind).splitOn (.mark ';') := by
  have hrespects : Respects (List.map Token.kind) (.mark ';') (.mark ';') := by
    refine ⟨fun front rest => by simp [Token.kind], fun l h => ?_⟩
    obtain ⟨token, htoken, hkind⟩ := List.mem_map.1 h
    cases token with
    | mark c =>
      obtain rfl := Kind.mark.inj hkind
      exact htoken
    | number | quoted => cases hkind
  rw [hrespects.splitOn]
  rfl

theorem shapes_of_kinds {ps qs : List Piece} (h : kinds ps = kinds qs) :
    shapes (allTokens ps) = shapes (allTokens qs) := by
  rw [shapes_eq, shapes_eq, ← kinds, ← kinds, h]

@[simp] theorem kinds_nil : kinds [] = [] := rfl

/-- The kinds of a piece. -/
def Piece.kinds (p : Piece) : List Kind := p.tokens.map Token.kind

@[simp] theorem Piece.kinds_quoted (text : String) : (quoted text).kinds = [.string] := rfl

@[simp] theorem Piece.kinds_plain (text : String) : (plain text).kinds = [.string] := rfl

@[simp] theorem Piece.kinds_number (n : Nat) (next : Char) :
    (number n next).kinds = [.number, .mark next] := rfl

@[simp] theorem kinds_cons (p : Piece) (ps : List Piece) :
    kinds (p :: ps) = p.kinds ++ kinds ps := by
  simp [kinds, allTokens, Piece.kinds]

theorem kinds_append (ps qs : List Piece) : kinds (ps ++ qs) = kinds ps ++ kinds qs := by
  simp [kinds, allTokens]

/-- Parts of one kind, one for each element of a list: only their number matters. -/
theorem kinds_flatMap {α : Type} {f : α → List Piece} (hf : ∀ a b, kinds (f a) = kinds (f b))
    {as bs : List α} (h : as.length = bs.length) : kinds (as.flatMap f) = kinds (bs.flatMap f) := by
  induction as generalizing bs with
  | nil => rw [List.length_eq_zero_iff.1 h.symm]
  | cons a as ih =>
    cases bs with
    | nil => cases h
    | cons b bs =>
      rw [List.flatMap_cons, List.flatMap_cons, kinds_append, kinds_append, hf a b,
        ih (Nat.succ.inj h)]

end Turbine.Base
