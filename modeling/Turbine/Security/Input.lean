import Turbine.Base.Utf8
import Turbine.Security.SqlGuard

/-!
# Turbine.Security.Input

The code guard (crates/turbine-security/src/code_guard.rs) and the layer that puts the
guards together (crates/turbine-security/src/lib.rs).

The code guard lets every input of less than four bytes pass, but two of its patterns are
shorter than that.

* `enforces_iff`: when exactly the inputs that contain a pattern are blocked.
-/

namespace Turbine.Security

open Base

/-! ## the code guard -/

/-- `CODE_PATTERNS_PL1`. -/
def codePatternsPl1 : List String :=
  ["eval(", "assert(", "create_function(", "exec(", "shell_exec(", "system(", "passthru(",
    "popen(", "proc_open(", "pcntl_exec("]

/-- `OBFUSCATION_CHAINS`. -/
def obfuscationChains : List String :=
  ["base64_decode(base64_decode(", "eval(base64_decode(", "eval(gzinflate(base64_decode(",
    "assert(base64_decode(", "eval(str_rot13("]

/-- `CODE_PATTERNS_PL2`. -/
def codePatternsPl2 : List String :=
  ["call_user_func(", "call_user_func_array(", "base64_decode(", "gzinflate(", "gzuncompress(",
    "gzdecode(", "str_rot13(", "chr(", "pack(", "`", "$$", "ReflectionFunction"]

/-- `CODE_PATTERNS_PL3`. -/
def codePatternsPl3 : List String :=
  ["include(", "include_once(", "require(", "require_once(", "str_replace(", "$_GET[", "$_POST[",
    "$_REQUEST[", "$_COOKIE[", "->__construct(", "::__callStatic("]

/-- The patterns that `CodeGuard::with_paranoia` loads into the first automaton. -/
def codePatterns (level : UInt8) : List String :=
  tiers level codePatternsPl1 codePatternsPl2 codePatternsPl3

/-- The patterns that it loads into the second. -/
def loadedChains (level : UInt8) : List String := if level = 0 then [] else obfuscationChains

/-- `CodeGuard`. -/
structure CodeGuard (level : UInt8) where
  basicAutomaton : AhoCorasick (codePatterns level)
  obfuscationAutomaton : AhoCorasick (loadedChains level)

variable {level : UInt8}

/-- `CodeGuard::check`. -/
def CodeGuard.check (g : CodeGuard level) (input : String) : InputVerdict :=
  if input.isEmpty || (utf8 input).length < 4 then .allow
  else match g.obfuscationAutomaton.find input with
    | some matched => .block ("Code injection (obfuscation chain): " ++ matched)
    | none =>
      match g.basicAutomaton.find input with
      | some matched => .block ("Code injection pattern: " ++ matched)
      | none => .allow

/-! ## the layer -/

/-- `SecurityConfig`. -/
structure SecurityConfig where
  enabled : Bool := true
  sqlGuard : Bool := true
  codeInjectionGuard : Bool := true
  behaviourGuard : Bool := true
  paranoiaLevel : UInt8 := 1
  excludePaths : List String := []
deriving DecidableEq, Repr

/-- `needs_input_scan`. -/
def SecurityConfig.needsInputScan (cfg : SecurityConfig) : Bool :=
  cfg.enabled && 0 < cfg.paranoiaLevel && (cfg.sqlGuard || cfg.codeInjectionGuard)

/-- `needs_behaviour_check`. -/
def SecurityConfig.needsBehaviourCheck (cfg : SecurityConfig) : Bool :=
  cfg.enabled && cfg.behaviourGuard

/-- `is_excluded`. -/
def SecurityConfig.isExcluded (cfg : SecurityConfig) (path : String) : Bool :=
  cfg.excludePaths.any fun front => startsWith path front

/-- `SecurityLayer`: the guards with the patterns of the configuration. -/
structure SecurityLayer (Ip : Type) (cfg : SecurityConfig) where
  sqlGuard : SqlGuard (sqlPatterns cfg.paranoiaLevel)
  codeGuard : CodeGuard cfg.paranoiaLevel
  behaviourGuard : BehaviourGuard Ip

/-- What the layer is given from outside: the hash of the cache's keys, and the settings of
the behaviour guard. -/
structure Environment where
  hash : String → UInt64
  behaviour : BehaviourConfig := {}

variable {Ip : Type} [DecidableEq Ip] {cfg : SecurityConfig} {patterns : List String}

/-- The loop of the SQL guard over the parameters, up to the first that is blocked. -/
def SqlGuard.checkParams (hash : String → UInt64) (g : SqlGuard patterns) :
    List (String × String) → SqlGuard patterns × InputVerdict
  | [] => (g, .allow)
  | param :: params =>
    let outcome := g.check hash param.2
    if outcome.2.isBlocked then outcome else outcome.1.checkParams hash params

/-- The loop of the code guard. -/
def CodeGuard.checkParams (g : CodeGuard level) : List (String × String) → InputVerdict
  | [] => .allow
  | param :: params =>
    if (g.check param.2).isBlocked then g.check param.2 else g.checkParams params

namespace SecurityLayer

/-- Step 2 of `check_input`.  From level 2 on a match counts as an attempt. -/
def checkSql (env : Environment) (layer : SecurityLayer Ip cfg) (ip : Ip) (now : Nat)
    (params : List (String × String)) : SecurityLayer Ip cfg × InputVerdict :=
  if cfg.sqlGuard then
    let outcome := layer.sqlGuard.checkParams env.hash params
    let behaviourGuard := if outcome.2.isBlocked && 2 ≤ cfg.paranoiaLevel then
        layer.behaviourGuard.recordSqliAttempt env.behaviour ip now
      else layer.behaviourGuard
    ({ layer with sqlGuard := outcome.1, behaviourGuard }, outcome.2)
  else (layer, .allow)

/-- The pattern guards of `check_input`. -/
def checkPatterns (env : Environment) (layer : SecurityLayer Ip cfg) (ip : Ip) (now : Nat)
    (params : List (String × String)) : SecurityLayer Ip cfg × InputVerdict :=
  let outcome := layer.checkSql env ip now params
  if outcome.2.isBlocked then outcome
  else if cfg.codeInjectionGuard then (outcome.1, layer.codeGuard.checkParams params)
  else (outcome.1, .allow)

/-- `check_input` after the behaviour guard. -/
def checkPath (env : Environment) (layer : SecurityLayer Ip cfg) (ip : Ip) (now : Nat)
    (path : String) (params : List (String × String)) : SecurityLayer Ip cfg × InputVerdict :=
  if cfg.isExcluded path then (layer, .allow)
  else if cfg.paranoiaLevel = 0 then (layer, .allow)
  else layer.checkPatterns env ip now params

/-- `SecurityLayer::check_input`. -/
def checkInput (env : Environment) (layer : SecurityLayer Ip cfg) (ip : Ip) (now : Nat)
    (path : String) (params : List (String × String)) : SecurityLayer Ip cfg × InputVerdict :=
  if !cfg.enabled then (layer, .allow)
  else if cfg.behaviourGuard then
    let outcome := layer.behaviourGuard.checkRequest env.behaviour ip now
    let layer := { layer with behaviourGuard := outcome.1 }
    match outcome.2 with
    | .block reason => (layer, .behaviour reason)
    | .allow => layer.checkPath env ip now path params
  else layer.checkPath env ip now path params

/-- `SecurityLayer::with_behaviour_config`, before any request. -/
def new (cfg : SecurityConfig) (sql : AhoCorasick (sqlPatterns cfg.paranoiaLevel))
    (codeGuard : CodeGuard cfg.paranoiaLevel) : SecurityLayer Ip cfg :=
  ⟨.withParanoia cfg.paranoiaLevel sql, codeGuard, { profiles := ∅ }⟩

end SecurityLayer

/-! ## loaded patterns -/

/-- The value contains a pattern that the SQL guard or the code guard has loaded. -/
def HasLoaded (level : UInt8) (value : String) : Prop :=
  ∃ p ∈ sqlPatterns level ++ codePatterns level ++ loadedChains level, Contains value p

instance {value : String} : Decidable (HasLoaded level value) :=
  inferInstanceAs (Decidable (∃ p ∈ _, _))

theorem hasLoaded_iff {value : String} : HasLoaded level value ↔
    (∃ p ∈ sqlPatterns level, Contains value p) ∨ (∃ p ∈ codePatterns level, Contains value p) ∨
      ∃ p ∈ loadedChains level, Contains value p := by
  simp only [HasLoaded, List.mem_append, or_and_right, exists_or, or_assoc]

/-- A value too short for the code guard, with one of its two short patterns. -/
def IsShort (level : UInt8) (value : String) : Prop :=
  2 ≤ level ∧ (utf8 value).length < 4 ∧ (Contains value "`" ∨ Contains value "$$")

instance {value : String} : Decidable (IsShort level value) :=
  inferInstanceAs (Decidable (_ ∧ _ ∧ (_ ∨ _)))

/-- A character takes a byte at least. -/
theorem length_toList_le_utf8 (s : String) : s.toList.length ≤ (utf8 s).length := by
  rw [utf8]
  induction s.toList with
  | nil => exact Nat.le_refl _
  | cons c cs ih =>
    have hone := Char.utf8Size_pos c
    rw [encodeChars_cons, List.length_append, String.length_utf8EncodeChar, List.length_cons]
    omega

/-- A pattern of four characters does not fit into a value of less than four bytes. -/
theorem not_contains_of_short {value p : String} (hshort : (utf8 value).length < 4)
    (hp : 4 ≤ p.toList.length) : ¬ Contains value p := by
  intro hcontains
  have hle := length_le_of_contains hcontains
  have hbytes := length_toList_le_utf8 value
  omega

theorem four_le_of_mem_loadedChains {p : String} (h : p ∈ loadedChains level) :
    4 ≤ p.toList.length := by
  have hall : ∀ p ∈ obfuscationChains, 4 ≤ p.toList.length := by decide +kernel
  exact hall p (List.mem_ite_nil_left.1 h).2

theorem four_le_of_mem_codePatterns {p : String} (h : p ∈ codePatterns level) :
    4 ≤ p.toList.length ∨ 2 ≤ level ∧ (p = "`" ∨ p = "$$") := by
  have hpl1 : ∀ p ∈ codePatternsPl1, 4 ≤ p.toList.length := by decide +kernel
  have hpl2 : ∀ p ∈ codePatternsPl2, 4 ≤ p.toList.length ∨ p = "`" ∨ p = "$$" := by decide +kernel
  have hpl3 : ∀ p ∈ codePatternsPl3, 4 ≤ p.toList.length := by decide +kernel
  unfold codePatterns tiers at h
  simp only [List.mem_append, List.mem_ite_nil_right] at h
  obtain (⟨-, h⟩ | ⟨hlevel, h⟩) | ⟨-, h⟩ := h
  · exact .inl (hpl1 p h)
  · exact (hpl2 p h).imp_right fun hp => ⟨hlevel, hp⟩
  · exact .inl (hpl3 p h)

theorem short_mem_codePatterns (hlevel : 2 ≤ level) :
    "`" ∈ codePatterns level ∧ "$$" ∈ codePatterns level := by
  have hmem : "`" ∈ codePatternsPl2 ∧ "$$" ∈ codePatternsPl2 := by decide
  unfold codePatterns tiers
  simp only [List.mem_append, List.mem_ite_nil_right]
  exact ⟨.inl (.inr ⟨hlevel, hmem.1⟩), .inl (.inr ⟨hlevel, hmem.2⟩)⟩

/-- Among the values of less than four bytes, those with a loaded pattern are the ones
with a short pattern. -/
theorem hasLoaded_short {value : String} (hshort : (utf8 value).length < 4) :
    HasLoaded level value ↔ IsShort level value := by
  rw [hasLoaded_iff]
  constructor
  · rintro (⟨p, hp, hcontains⟩ | ⟨p, hp, hcontains⟩ | ⟨p, hp, hcontains⟩)
    · exact absurd hcontains (not_contains_of_short hshort (four_le_of_mem_sqlPatterns hp))
    · obtain hfour | ⟨hlevel, rfl | rfl⟩ := four_le_of_mem_codePatterns hp
      · exact absurd hcontains (not_contains_of_short hshort hfour)
      · exact ⟨hlevel, hshort, .inl hcontains⟩
      · exact ⟨hlevel, hshort, .inr hcontains⟩
    · exact absurd hcontains (not_contains_of_short hshort (four_le_of_mem_loadedChains hp))
  · rintro ⟨hlevel, -, hbacktick | hdollars⟩
    · exact .inr (.inl ⟨_, (short_mem_codePatterns hlevel).1, hbacktick⟩)
    · exact .inr (.inl ⟨_, (short_mem_codePatterns hlevel).2, hdollars⟩)

/-- The code guard finds the patterns in the inputs that are long enough. -/
theorem CodeGuard.check_isBlocked {g : CodeGuard level} {input : String} :
    (g.check input).isBlocked = true ↔ 4 ≤ (utf8 input).length ∧
      ((∃ p ∈ codePatterns level, Contains input p) ∨
        ∃ p ∈ loadedChains level, Contains input p) := by
  have hempty : input.isEmpty = true → (utf8 input).length < 4 := by
    intro h
    rw [String.isEmpty_iff.1 h]
    decide
  rw [← g.basicAutomaton.find_isSome_iff, ← g.obfuscationAutomaton.find_isSome_iff]
  unfold CodeGuard.check
  split
  case isTrue hshort =>
    have hshort : (utf8 input).length < 4 := by
      obtain h | h := Bool.or_eq_true_iff.1 hshort
      · exact hempty h
      · exact of_decide_eq_true h
    simp [InputVerdict.isBlocked, Nat.not_le.2 hshort]
  case isFalse hlong =>
    have hlong : 4 ≤ (utf8 input).length := by simp_all
    cases g.obfuscationAutomaton.find input with
    | some matched => simp [InputVerdict.isBlocked, hlong]
    | none => cases g.basicAutomaton.find input <;> simp [InputVerdict.isBlocked, hlong]

theorem CodeGuard.checkParams_isBlocked {g : CodeGuard level} {params : List (String × String)} :
    (g.checkParams params).isBlocked = true ↔
      ∃ param ∈ params, (g.check param.2).isBlocked = true := by
  induction params with
  | nil => simp [checkParams, InputVerdict.isBlocked]
  | cons param params ih =>
    rw [checkParams]
    split
    case isTrue hblocked => simp [hblocked]
    case isFalse hallowed => simp [ih, hallowed]

variable {hash : String → UInt64} {used : Set String}

/-- The loop of the SQL guard over parameters in use: the cache stays sound, and the list
is blocked iff one of its values has a pattern. -/
theorem SqlGuard.checkParams_spec (hne : ∀ p ∈ patterns, p.toList ≠ [])
    (hinj : Set.InjOn hash used) {params : List (String × String)}
    (hin : ∀ param ∈ params, param.2 ∈ used) {g : SqlGuard patterns} (h : g.Sound hash used) :
    (g.checkParams hash params).1.Sound hash used ∧
      ((g.checkParams hash params).2.isBlocked = true ↔
        ∃ param ∈ params, ∃ p ∈ patterns, Contains param.2 p) := by
  induction params generalizing g with
  | nil => exact ⟨h, by simp [checkParams, InputVerdict.isBlocked]⟩
  | cons param params ih =>
    obtain ⟨hfirst, hrest⟩ := List.forall_mem_cons.1 hin
    have hsound := check_sound h hinj hfirst
    have hblocked := check_isBlocked hne h hfirst
    rw [checkParams]
    split
    case isTrue hstop => exact ⟨hsound, by simp [hstop, hblocked.1 hstop]⟩
    case isFalse hgo =>
      obtain ⟨hsound', hrest⟩ := ih hrest hsound
      rw [hblocked] at hgo
      exact ⟨hsound', by simp [hrest, hgo]⟩

/-! ## the verdict of the layer -/

/-- Both pattern guards are on, the behaviour guard is off, and the level loads patterns. -/
structure PatternsOnly (cfg : SecurityConfig) : Prop where
  enabled : cfg.enabled = true
  sql : cfg.sqlGuard = true
  code : cfg.codeInjectionGuard = true
  behaviour : cfg.behaviourGuard = false
  level : 1 ≤ cfg.paranoiaLevel ∧ cfg.paranoiaLevel ≤ 3

namespace SecurityLayer

variable {env : Environment} {layer : SecurityLayer Ip cfg} {ip : Ip} {now : Nat} {path : String}
  {params : List (String × String)}

theorem checkInput_eq (hcfg : PatternsOnly cfg) (hpath : cfg.isExcluded path = false) :
    layer.checkInput env ip now path params = layer.checkPatterns env ip now params := by
  have hzero : cfg.paranoiaLevel ≠ 0 := by
    intro h
    have hone := hcfg.level.1
    rw [h] at hone
    exact absurd hone (by decide)
  simp [checkInput, checkPath, hcfg.enabled, hcfg.behaviour, hpath, hzero]

/-- The parameters are blocked iff one of the values that are long enough has a loaded
pattern. -/
theorem checkInput_isBlocked (hcfg : PatternsOnly cfg) (hpath : cfg.isExcluded path = false)
    (hinj : Set.InjOn env.hash used) (hin : ∀ param ∈ params, param.2 ∈ used)
    (h : layer.sqlGuard.Sound env.hash used) :
    (layer.checkInput env ip now path params).2.isBlocked = true ↔
      ∃ param ∈ params, 4 ≤ (utf8 param.2).length ∧ HasLoaded cfg.paranoiaLevel param.2 := by
  obtain ⟨-, hsql⟩ := SqlGuard.checkParams_spec sqlPatterns_ne_nil hinj hin h
  have hlong : ∀ value, (∃ p ∈ sqlPatterns cfg.paranoiaLevel, Contains value p) →
      4 ≤ (utf8 value).length := by
    rintro value ⟨p, hp, hcontains⟩
    by_contra hshort
    exact not_contains_of_short (Nat.not_le.1 hshort) (four_le_of_mem_sqlPatterns hp) hcontains
  have hsplit : ∀ value, 4 ≤ (utf8 value).length ∧ HasLoaded cfg.paranoiaLevel value ↔
      (∃ p ∈ sqlPatterns cfg.paranoiaLevel, Contains value p) ∨
        (layer.codeGuard.check value).isBlocked = true := by
    intro value
    rw [hasLoaded_iff, CodeGuard.check_isBlocked, and_or_left]
    exact or_congr_left (and_iff_right_of_imp (hlong value))
  simp only [hsplit, and_or_left, exists_or, ← CodeGuard.checkParams_isBlocked, ← hsql]
  rw [checkInput_eq hcfg hpath, checkPatterns, checkSql, if_pos hcfg.sql, if_pos hcfg.code]
  dsimp only
  split
  case isTrue hblocked => simp [hblocked]
  case isFalse hallowed => simp [hallowed]

theorem sound_checkPath (hinj : Set.InjOn env.hash used) (hin : ∀ param ∈ params, param.2 ∈ used)
    (h : layer.sqlGuard.Sound env.hash used) :
    (layer.checkPath env ip now path params).1.sqlGuard.Sound env.hash used := by
  have hspec := (SqlGuard.checkParams_spec sqlPatterns_ne_nil hinj hin h).1
  have hsql : (layer.checkSql env ip now params).1.sqlGuard.Sound env.hash used := by
    unfold checkSql
    split
    · exact hspec
    · exact h
  have hpatterns : (layer.checkPatterns env ip now params).1.sqlGuard.Sound env.hash used := by
    unfold checkPatterns
    dsimp only
    split
    · exact hsql
    · split <;> exact hsql
  unfold checkPath
  split
  · exact h
  · split
    · exact h
    · exact hpatterns

/-- A sound layer stays so. -/
theorem sound_checkInput (hinj : Set.InjOn env.hash used) (hin : ∀ param ∈ params, param.2 ∈ used)
    (h : layer.sqlGuard.Sound env.hash used) :
    (layer.checkInput env ip now path params).1.sqlGuard.Sound env.hash used := by
  unfold checkInput
  split
  · exact h
  · split
    · dsimp only
      split
      · exact h
      · exact sound_checkPath hinj hin h
    · exact sound_checkPath hinj hin h

/-! ## all calls -/

/-- The calls to a layer. -/
inductive Call (Ip : Type)
  | checkInput (ip : Ip) (now : Nat) (path : String) (params : List (String × String))
  | clearCache
  | recordRequest (ip : Ip) (wasError : Bool)
  | unblockIp (ip : Ip)

/-- The layer after a call. -/
def step (env : Environment) (layer : SecurityLayer Ip cfg) :
    Call Ip → Option (SecurityLayer Ip cfg)
  | .checkInput ip now path params => some (layer.checkInput env ip now path params).1
  | .clearCache => some { layer with sqlGuard := layer.sqlGuard.clearCache }
  | .recordRequest ip wasError =>
    some { layer with behaviourGuard := layer.behaviourGuard.recordRequest ip wasError }
  | .unblockIp ip => some { layer with behaviourGuard := (layer.behaviourGuard.unblockIp ip).1 }

/-- The values of a call's parameters. -/
def Call.values : Call Ip → List String
  | .checkInput _ _ _ params => params.map Prod.snd
  | .clearCache | .recordRequest _ _ | .unblockIp _ => []

/-- The values of all calls. -/
def values (calls : List (Call Ip)) : Set String := {value | ∃ call ∈ calls, value ∈ call.values}

theorem sound_step {call : Call Ip} {layer' : SecurityLayer Ip cfg} (hinj : Set.InjOn env.hash used)
    (h : layer.sqlGuard.Sound env.hash used) (huse : ∀ value ∈ call.values, value ∈ used)
    (hstep : step env layer call = some layer') : layer'.sqlGuard.Sound env.hash used := by
  cases call with
  | checkInput ip now path params =>
    obtain rfl := Option.some.inj hstep
    exact sound_checkInput hinj (fun param hp => huse _ (List.mem_map_of_mem hp)) h
  | clearCache =>
    obtain rfl := Option.some.inj hstep
    exact h.clearCache
  | recordRequest ip wasError =>
    obtain rfl := Option.some.inj hstep
    exact h
  | unblockIp ip =>
    obtain rfl := Option.some.inj hstep
    exact h

/-- For every configuration with the pattern guards only, every sequence of calls no two of
whose values share a hash, and every check among them of a path that is not excluded: the
parameters are blocked exactly if one of the values contains a loaded pattern, iff a value
too short for the code guard comes together with a longer one that contains a pattern. -/
theorem enforces_iff (env : Environment) (cfg : SecurityConfig) (hcfg : PatternsOnly cfg)
    (sql : AhoCorasick (sqlPatterns cfg.paranoiaLevel)) (codeGuard : CodeGuard cfg.paranoiaLevel)
    (calls : List (Call Ip)) (hinj : Set.InjOn env.hash (values calls)) :
    Along (step env)
      (fun layer call _ => ∀ ip now path params, call = .checkInput ip now path params →
        cfg.isExcluded path = false →
        (((layer.checkInput env ip now path params).2.isBlocked = true ↔
            ∃ param ∈ params, HasLoaded cfg.paranoiaLevel param.2) ↔
          ((∃ param ∈ params, IsShort cfg.paranoiaLevel param.2) →
            ∃ param ∈ params, 4 ≤ (utf8 param.2).length ∧ HasLoaded cfg.paranoiaLevel param.2)))
      (new cfg sql codeGuard) calls := by
  have huses : Guarded (step env) (fun _ call => ∀ value ∈ call.values, value ∈ values calls)
      (new cfg sql codeGuard) calls :=
    guarded_of_mem fun call hcall value hvalue => ⟨call, hcall, hvalue⟩
  refine along_of_guarded (I := fun layer => layer.sqlGuard.Sound env.hash (values calls)) ?_
    SqlGuard.sound_withParanoia huses
  intro layer call layer' hsound huse hstep
  refine ⟨sound_step hinj hsound huse hstep, ?_⟩
  rintro ip now path params rfl hpath
  have hin : ∀ param ∈ params, param.2 ∈ values calls :=
    fun param hp => huse _ (List.mem_map_of_mem hp)
  rw [checkInput_isBlocked hcfg hpath hinj hin hsound]
  -- the values that are too short are the only difference
  constructor
  · rintro hexact ⟨param, hp, hshort⟩
    exact hexact.2 ⟨param, hp, (hasLoaded_short hshort.2.1).2 hshort⟩
  · intro htogether
    constructor
    · rintro ⟨param, hp, -, hloaded⟩
      exact ⟨param, hp, hloaded⟩
    · rintro ⟨param, hp, hloaded⟩
      by_cases hlong : 4 ≤ (utf8 param.2).length
      · exact ⟨param, hp, hlong, hloaded⟩
      · exact htogether ⟨param, hp, (hasLoaded_short (Nat.not_le.1 hlong)).1 hloaded⟩

/-- The pattern guards at level 2. -/
def levelTwo : SecurityConfig := { behaviourGuard := false, paranoiaLevel := 2 }

/-- A layer before any request, with automata that try every position. -/
def fresh (cfg : SecurityConfig) : SecurityLayer Unit cfg :=
  new cfg (.scanner _) ⟨.scanner _, .scanner _⟩

theorem patternsOnly_levelTwo : PatternsOnly levelTwo := ⟨rfl, rfl, rfl, rfl, by decide⟩

/-- A shell command of three bytes passes. -/
theorem short_command_allowed :
    PatternsOnly levelTwo ∧
      ((fresh levelTwo).checkInput ⟨SqlGuard.lengthHash, {}⟩ () 0 "/" [("q", "`w`")]).2 = .allow ∧
      "`" ∈ codePatterns levelTwo.paranoiaLevel ∧ Contains "`w`" "`" :=
  ⟨patternsOnly_levelTwo, by decide +kernel, by decide, by decide⟩

/-- With a longer value the same command is blocked. -/
theorem enforces_iff_longer :
    PatternsOnly levelTwo ∧
      ((fresh levelTwo).checkInput ⟨SqlGuard.lengthHash, {}⟩ () 0 "/"
        [("q", "`who`")]).2.isBlocked = true := by
  refine ⟨patternsOnly_levelTwo, ?_⟩
  have hinj : Set.InjOn SqlGuard.lengthHash
      (values [Call.checkInput () 0 "/" [("q", "`who`")]]) := by
    rintro a ⟨_, ha, ha'⟩ b ⟨_, hb, hb'⟩ -
    obtain rfl := List.mem_singleton.1 ha
    obtain rfl := List.mem_singleton.1 hb
    rw [List.mem_singleton.1 ha', List.mem_singleton.1 hb']
  have halong := enforces_iff ⟨SqlGuard.lengthHash, {}⟩ levelTwo patternsOnly_levelTwo
    (.scanner _) ⟨.scanner _, .scanner _⟩ [Call.checkInput () 0 "/" [("q", "`who`")]] hinj
  have hexact := ((halong _ rfl).1 () 0 "/" [("q", "`who`")] rfl rfl).2
    fun h => absurd h (by decide)
  exact hexact.2 ⟨("q", "`who`"), List.mem_singleton.2 rfl, by decide⟩

end SecurityLayer

end Turbine.Security
