import Turbine.Base.Counting
import Turbine.Base.Runs
import Turbine.Http.Multipart

/-!
# Turbine.Http.Uploads

The temp files of uploads, over all requests of one server process.  Parts of
several requests are written in any order, and a request that ends removes its
files one by one, as the entries' `Drop` does.  The name of a temp file is made
of the process id and the number of files its own request has accepted, so the
first uploads of any two requests have one name.

* `State.Apart`: every entry of a live request has its file with its data, and
  no two live requests have one path;
* `apart_step_iff`: when a step keeps that.
-/

namespace Turbine.Http.Uploads

open Base

/-! ## requests -/

/-- A request and its uploads. -/
inductive Request
  /-- `parse_multipart` has the parts `rest` before it. -/
  | parsing (rest : List Field) (c : Collected)
  | alive (c : Collected)
  /-- Being dropped: the entries still to come, after `removed` others. -/
  | dropping (removed : Nat) (files : List UploadedFile)
deriving DecidableEq, Repr

/-- The entries of a request while it is alive. -/
def Request.files : Request → List UploadedFile
  | .parsing _ c => c.files
  | .alive c => c.files
  | .dropping _ _ => []

/-- The entries that the request has still to drop, and how many it has dropped. -/
def Request.entries : Request → Nat × List UploadedFile
  | .parsing _ c => (0, c.files)
  | .alive c => (0, c.files)
  | .dropping n files => (n, files)

structure State where
  disk : String → Option Bytes
  requests : List Request

def initial : State := ⟨fun _ => none, []⟩

def State.goto (s : State) (r : Nat) (q : Request) : State :=
  { s with requests := s.requests.set r q }

/-- `std::fs::write`, for the file of a pass that wrote one. -/
def State.write (s : State) : Option UploadedFile → State
  | some f => { s with disk := Function.update s.disk f.tmpPath (some f.data) }
  | none => s

/-- `UploadedFile::drop`. -/
def State.unlink (s : State) (path : String) : State :=
  if path.isEmpty then s else { s with disk := Function.update s.disk path none }

inductive Event
  | arrive (fields : List Field)
  | parse (r : Nat)
  | drop (r : Nat)
  | remove (r : Nat)

/-- The state after `e`; `none` if the event is not enabled. -/
def step (cfg : UploadConfig) (s : State) : Event → Option State
  | .arrive fields => some { s with requests := s.requests ++ [.parsing fields ⟨[], []⟩] }
  | .parse r =>
    match s.requests[r]? with
    | some (.parsing [] c) => some (s.goto r (.alive c))
    | some (.parsing (f :: rest) c) =>
      some ((s.write (takeField cfg c f).2).goto r (.parsing rest (takeField cfg c f).1))
    | _ => none
  | .drop r =>
    match s.requests[r]? with
    | some (.alive c) => some (s.goto r (.dropping 0 c.files))
    | _ => none
  | .remove r =>
    match s.requests[r]? with
    | some (.dropping n (f :: rest)) => some ((s.unlink f.tmpPath).goto r (.dropping (n + 1) rest))
    | _ => none

variable {cfg : UploadConfig} {s s' : State} {e : Event} {q q' q₁ : Request} {r u n : Nat}
  {f : UploadedFile}

/-- The pass accepts a file. -/
def Accepts (cfg : UploadConfig) (field : Field) (u : Upload) : Prop :=
  field.disposition cfg.security = .file u

/-- Every way a step can go. -/
inductive Step (cfg : UploadConfig) (s : State) : Event → State → Prop
  | arrive {fields : List Field} :
      Step cfg s (.arrive fields) { s with requests := s.requests ++ [.parsing fields ⟨[], []⟩] }
  /-- The request goes on with the entries it has. -/
  | proceed {r : Nat} {q q' : Request} (hr : s.requests[r]? = some q)
      (hfiles : q'.files = q.files) (hentries : q'.entries = q.entries)
      (hnone : ∀ field rest c u, q = .parsing (field :: rest) c → ¬ Accepts cfg field u) :
      Step cfg s (.parse r) (s.goto r q')
  | accept {r : Nat} {field : Field} {rest : List Field} {c : Collected} {u : Upload}
      (hr : s.requests[r]? = some (.parsing (field :: rest) c)) (haccept : Accepts cfg field u) :
      Step cfg s (.parse r) ((s.write (some (cfg.entryFor c u))).goto r
        (.parsing rest { c with files := c.files ++ [cfg.entryFor c u] }))
  | drop {r : Nat} {c : Collected} (hr : s.requests[r]? = some (.alive c)) :
      Step cfg s (.drop r) (s.goto r (.dropping 0 c.files))
  | remove {r n : Nat} {f : UploadedFile} {rest : List UploadedFile}
      (hr : s.requests[r]? = some (.dropping n (f :: rest))) :
      Step cfg s (.remove r) ((s.unlink f.tmpPath).goto r (.dropping (n + 1) rest))

/-- **Inversion lemma.** -/
theorem Step.of_step (h : step cfg s e = some s') : Step cfg s e s' := by
  cases e with
  | arrive fields =>
    cases h
    exact .arrive
  | parse r =>
    simp only [step] at h
    split at h
    case h_1 c hr =>
      cases h
      exact .proceed hr rfl rfl nofun
    case h_2 field rest c hr =>
      cases h
      have hno : ∀ d, field.disposition cfg.security = d → (∀ u, d ≠ .file u) →
          ∀ field' rest' c' u, Request.parsing (field :: rest) c = .parsing (field' :: rest') c' →
            ¬ Accepts cfg field' u := by
        rintro d hd hfile _ _ _ u ⟨⟩ haccept
        exact hfile u (hd.symm.trans haccept)
      unfold takeField
      split
      case h_1 hskip => exact .proceed hr rfl rfl (hno _ hskip nofun)
      case h_2 name value htext =>
        exact .proceed hr rfl rfl (hno _ htext nofun)
      case h_3 u hfile => exact .accept hr hfile
    case h_3 => cases h
  | drop r =>
    simp only [step] at h
    split at h
    case h_1 c hr =>
      cases h
      exact .drop hr
    case h_2 => cases h
  | remove r =>
    simp only [step] at h
    split at h
    case h_1 n f rest hr =>
      cases h
      exact .remove hr
    case h_2 => cases h

/-! ## names -/

/-- The entries are named by their positions. -/
def Request.Named (cfg : UploadConfig) (q : Request) : Prop :=
  ∀ (j : Nat) (f : UploadedFile), q.entries.2[j]? = some f →
    f.tmpPath = tmpPath cfg.tmpDir cfg.pid (q.entries.1 + j)

def State.Named (cfg : UploadConfig) (s : State) : Prop := ∀ q ∈ s.requests, q.Named cfg

theorem named_goto (h : s.Named cfg) (hq : q.Named cfg) : (s.goto r q).Named cfg := by
  intro q' hq'
  obtain hq' | rfl := List.mem_or_eq_of_mem_set hq'
  · exact h q' hq'
  · exact hq

/-- **Step lemma.** -/
theorem named_step (h : s.Named cfg) (hstep : step cfg s e = some s') : s'.Named cfg := by
  cases Step.of_step hstep with
  | arrive =>
    intro q hq
    obtain hq | hq := List.mem_append.1 hq
    · exact h q hq
    · rw [List.mem_singleton.1 hq]
      exact nofun
  | @proceed r q q' hr hfiles hentries hnone =>
    have hold : q.Named cfg := h q (List.mem_of_getElem? hr)
    refine named_goto h ?_
    unfold Request.Named
    rw [hentries]
    exact hold
  | @accept r field rest c u hr haccept =>
    have hold : (Request.parsing (field :: rest) c).Named cfg := h _ (List.mem_of_getElem? hr)
    have hdisk : (s.write (some (cfg.entryFor c u))).Named cfg := h
    refine named_goto hdisk fun j f hj => ?_
    simp only [Request.entries, List.getElem?_append, List.getElem?_singleton] at hj
    split at hj
    · exact hold j f hj
    · split at hj
      case isTrue hlen hj0 =>
        obtain rfl := Option.some.inj hj
        have hj : j = c.files.length := by omega
        simp [UploadConfig.entryFor, Request.entries, hj]
      case isFalse => cases hj
  | @drop r c hr =>
    have hold : (Request.alive c).Named cfg := h _ (List.mem_of_getElem? hr)
    exact named_goto h hold
  | @remove r n f rest hr =>
    have hold : (Request.dropping n (f :: rest)).Named cfg := h _ (List.mem_of_getElem? hr)
    have hdisk : (s.unlink f.tmpPath).Named cfg := by
      unfold State.unlink
      split <;> exact h
    refine named_goto hdisk fun j f' hj => ?_
    have hnext := hold (j + 1) f' (by simpa [Request.entries] using hj)
    simpa [Request.entries, Nat.add_assoc, Nat.add_comm 1 j] using hnext

theorem path_mem_iff (h : q.Named cfg) (n : Nat) :
    (∃ f ∈ q.files, f.tmpPath = tmpPath cfg.tmpDir cfg.pid n) ↔ n < q.files.length := by
  have hnamed : ∀ (j : Nat) (f : UploadedFile), q.files[j]? = some f →
      f.tmpPath = tmpPath cfg.tmpDir cfg.pid j := by
    intro j f hj
    cases q with
    | parsing rest c => simpa [Request.entries] using h j f hj
    | alive c => simpa [Request.entries] using h j f hj
    | dropping m files => simp [Request.files] at hj
  constructor
  · rintro ⟨f, hf, hpath⟩
    obtain ⟨j, hj⟩ := List.mem_iff_getElem?.1 hf
    have hjn : j = n := tmpPath_inj ((hnamed j f hj).symm.trans hpath)
    obtain ⟨hlt, -⟩ := List.getElem?_eq_some_iff.1 hj
    exact hjn ▸ hlt
  · intro hn
    have hget : q.files[n]? = some q.files[n] := List.getElem?_eq_getElem hn
    exact ⟨q.files[n], List.getElem_mem hn, hnamed n _ hget⟩

/-! ## files and their owners -/

/-- Every entry of a live request has its file with its data, and no two live
requests have an entry of one path. -/
structure State.Apart (s : State) : Prop where
  kept : ∀ {r : Nat} {q : Request} {f : UploadedFile}, s.requests[r]? = some q → f ∈ q.files →
    s.disk f.tmpPath = some f.data
  apart : ∀ {r u : Nat} {q q' : Request} {f f' : UploadedFile}, s.requests[r]? = some q →
    s.requests[u]? = some q' → f ∈ q.files → f' ∈ q'.files → f.tmpPath = f'.tmpPath → r = u

/-- A file is written only while no other live request has an upload, and the file
of a position is removed only while no live request has accepted more files. -/
def UploadsAlone (cfg : UploadConfig) (s : State) : Event → Prop
  | .parse r =>
    ∀ field rest c u, s.requests[r]? = some (.parsing (field :: rest) c) →
      Accepts cfg field u → ∀ (r' : Nat) q, r' ≠ r → s.requests[r']? = some q → q.files = []
  | .remove r =>
    ∀ n f rest, s.requests[r]? = some (.dropping n (f :: rest)) →
      ∀ (r' : Nat) q, s.requests[r']? = some q → q.files.length ≤ n
  | _ => True

theorem getElem?_goto (hr : s.requests[r]? = some q) :
    (s.goto r q').requests[u]? = if r = u then some q' else s.requests[u]? := by
  obtain ⟨hlt, -⟩ := List.getElem?_eq_some_iff.1 hr
  simp only [State.goto, List.getElem?_set, hlt, if_true]

/-- A request of the new state whose entries were those of the old one. -/
theorem files_goto (hr : s.requests[r]? = some q) (hfiles : ∀ f ∈ q'.files, f ∈ q.files)
    (hu : (s.goto r q').requests[u]? = some q₁) (hf : f ∈ q₁.files) :
    ∃ q₀, s.requests[u]? = some q₀ ∧ f ∈ q₀.files := by
  rw [getElem?_goto hr] at hu
  split at hu
  case isTrue hru =>
    obtain rfl := Option.some.inj hu
    exact ⟨q, hru ▸ hr, hfiles f hf⟩
  case isFalse => exact ⟨q₁, hu, hf⟩

/-- A request with an entry is not the one that has just arrived. -/
theorem getElem?_of_concat {fields : List Field} {requests : List Request}
    (hu : (requests ++ [.parsing fields ⟨[], []⟩])[u]? = some q) (hf : f ∈ q.files) :
    requests[u]? = some q := by
  rw [List.getElem?_append] at hu
  split at hu
  · exact hu
  · obtain rfl := List.mem_singleton.1 (List.mem_of_getElem? hu)
    cases hf

/-- A request that moves on without a new entry. -/
theorem apart_goto (h : s.Apart) (hr : s.requests[r]? = some q)
    (hfiles : ∀ f ∈ q'.files, f ∈ q.files) : (s.goto r q').Apart where
  kept := by
    intro u q₁ f hu hf
    obtain ⟨q₀, hq₀, hf₀⟩ := files_goto hr hfiles hu hf
    exact h.kept hq₀ hf₀
  apart := by
    intro u v q₁ q₂ f f' hu hv hf hf' hpath
    obtain ⟨q₀, hq₀, hf₀⟩ := files_goto hr hfiles hu hf
    obtain ⟨q₀', hq₀', hf₀'⟩ := files_goto hr hfiles hv hf'
    exact h.apart hq₀ hq₀' hf₀ hf₀' hpath

/-- A file is written: the names stay apart iff no other live request has one. -/
theorem apart_accept_iff {field : Field} {rest : List Field} {c : Collected} {up : Upload}
    (h : s.Apart) (hn : s.Named cfg) (hr : s.requests[r]? = some (.parsing (field :: rest) c))
    (hs' : s' = (s.write (some (cfg.entryFor c up))).goto r
      (.parsing rest { c with files := c.files ++ [cfg.entryFor c up] }))
    (hn' : s'.Named cfg) :
    s'.Apart ↔ ∀ (r' : Nat) q, r' ≠ r → s.requests[r']? = some q → q.files = [] := by
  have hget : ∀ u : Nat, s'.requests[u]? = if r = u then
      some (.parsing rest { c with files := c.files ++ [cfg.entryFor c up] })
      else s.requests[u]? := by
    intro u
    rw [hs']
    exact getElem?_goto (s := s.write _) hr
  have hhere := (hget r).trans (if_pos rfl)
  constructor
  · -- any two requests with uploads have the name of the first one in common
    intro hapart u q hur hu
    by_contra hne
    have hthere : s'.requests[u]? = some q := (hget u).trans ((if_neg (Ne.symm hur)).trans hu)
    have hfirst : ∀ {v : Nat} {q₁ : Request}, s'.requests[v]? = some q₁ → q₁.files ≠ [] →
        ∃ f ∈ q₁.files, f.tmpPath = tmpPath cfg.tmpDir cfg.pid 0 := fun hv hne =>
      (path_mem_iff (hn' _ (List.mem_of_getElem? hv)) 0).2 (List.length_pos_iff.2 hne)
    obtain ⟨f, hf, hpath⟩ := hfirst hthere hne
    obtain ⟨f', hf', hpath'⟩ := hfirst hhere (by simp [Request.files])
    exact hur (hapart.apart hthere hhere hf hf' (hpath.trans hpath'.symm))
  · intro halone
    have hother : ∀ {v : Nat} {q₁ : Request} {f : UploadedFile}, s'.requests[v]? = some q₁ →
        f ∈ q₁.files → v = r := by
      intro v q₁ f hv hf
      by_contra hvr
      rw [hget, if_neg (Ne.symm hvr)] at hv
      rw [halone v q₁ hvr hv] at hf
      cases hf
    have hnew : ∀ f ∈ c.files, f.tmpPath ≠ (cfg.entryFor c up).tmpPath := by
      intro f hf hpath
      have hlt := (path_mem_iff (hn _ (List.mem_of_getElem? hr)) c.files.length).1 ⟨f, hf, hpath⟩
      exact Nat.lt_irrefl _ hlt
    constructor
    · intro v q₁ f hv hf
      obtain rfl := hother hv hf
      obtain rfl := Option.some.inj (hhere.symm.trans hv)
      have hdisk : s'.disk = Function.update s.disk (cfg.entryFor c up).tmpPath
          (some (cfg.entryFor c up).data) := by rw [hs']; rfl
      obtain hf | hf := List.mem_append.1 hf
      · rw [hdisk, Function.update_of_ne (hnew f hf)]
        exact h.kept hr hf
      · rw [List.mem_singleton.1 hf, hdisk, Function.update_self]
    · intro v w q₁ q₂ f f' hv hw hf hf' _
      rw [hother hv hf, hother hw hf']

/-- A file is removed: no live request loses one iff none has accepted that many. -/
theorem apart_remove_iff {rest : List UploadedFile} (h : s.Apart) (hn : s.Named cfg)
    (hr : s.requests[r]? = some (.dropping n (f :: rest)))
    (hs' : s' = (s.unlink f.tmpPath).goto r (.dropping (n + 1) rest)) :
    s'.Apart ↔ ∀ (r' : Nat) q, s.requests[r']? = some q → q.files.length ≤ n := by
  have hpath : f.tmpPath = tmpPath cfg.tmpDir cfg.pid n := by
    simpa [Request.entries] using hn _ (List.mem_of_getElem? hr) 0 f (by simp [Request.entries])
  have hunlink : s.unlink f.tmpPath = { s with disk := Function.update s.disk f.tmpPath none } := by
    rw [State.unlink, hpath, tmpPath_ne_empty]
    rfl
  rw [hunlink] at hs'
  have hdisk : s'.disk = Function.update s.disk f.tmpPath none := by rw [hs']; rfl
  have hgoto : (s.goto r (.dropping (n + 1) rest)).Apart := apart_goto h hr nofun
  have hreq : s'.requests = (s.goto r (.dropping (n + 1) rest)).requests := by rw [hs']; rfl
  constructor
  · intro hapart u q hu
    by_contra hlt
    obtain ⟨f', hf', hpath'⟩ := (path_mem_iff (hn q (List.mem_of_getElem? hu)) n).2 (by omega)
    have hru : r ≠ u := by
      rintro rfl
      rw [hr] at hu
      obtain rfl := Option.some.inj hu
      cases hf'
    have hu' : s'.requests[u]? = some q := by
      rw [hreq, getElem?_goto hr, if_neg hru]
      exact hu
    have hkept := hapart.kept hu' hf'
    rw [hdisk, hpath', ← hpath, Function.update_self] at hkept
    cases hkept
  · intro hfew
    constructor
    · intro u q f' hu hf'
      rw [hreq] at hu
      obtain ⟨q₀, hq₀, hf₀⟩ := files_goto hr (by simp [Request.files]) hu hf'
      have hne : f'.tmpPath ≠ f.tmpPath := by
        intro heq
        have hlt := (path_mem_iff (hn q₀ (List.mem_of_getElem? hq₀)) n).1
          ⟨f', hf₀, heq.trans hpath⟩
        have := hfew u q₀ hq₀
        omega
      rw [hdisk, Function.update_of_ne hne]
      exact h.kept hq₀ hf₀
    · intro u v q q' f₁ f₂ hu hv hf₁ hf₂ heq
      rw [hreq] at hu hv
      exact hgoto.apart hu hv hf₁ hf₂ heq

/-- **Step lemma.** -/
theorem apart_step_iff (h : s.Apart) (hn : s.Named cfg) (hstep : step cfg s e = some s') :
    s'.Apart ↔ UploadsAlone cfg s e := by
  have hn' := named_step hn hstep
  cases Step.of_step hstep with
  | arrive =>
    refine iff_of_true ?_ trivial
    constructor
    · intro u q f hu hf
      exact h.kept (getElem?_of_concat hu hf) hf
    · intro u v q q' f f' hu hv hf hf' hpath
      exact h.apart (getElem?_of_concat hu hf) (getElem?_of_concat hv hf') hf hf' hpath
  | @proceed r q q' hr hfiles hentries hnone =>
    refine iff_of_true (apart_goto h hr fun f hf => hfiles ▸ hf) ?_
    intro field rest c u hr' haccept
    obtain rfl := Option.some.inj (hr.symm.trans hr')
    exact absurd haccept (hnone field rest c u rfl)
  | @accept r field rest c u hr haccept =>
    rw [apart_accept_iff h hn hr rfl hn']
    constructor
    · intro halone _ _ _ _ _ _
      exact halone
    · intro halone
      exact halone field rest c u hr haccept
  | @drop r c hr => exact iff_of_true (apart_goto h hr nofun) trivial
  | @remove r n f rest hr =>
    rw [apart_remove_iff h hn hr rfl]
    constructor
    · intro hfew m f' rest' hr'
      obtain ⟨rfl, -⟩ := Request.dropping.inj (Option.some.inj (hr.symm.trans hr'))
      exact hfew
    · intro hfew
      exact hfew n f rest hr

/-! ## whole runs -/

/-- Over every interleaving of requests being parsed and dropped, each live request
keeps its files and its names to itself iff a file is written only while no other
live request has one and removed only while no live request has accepted as many. -/
theorem uploads_apart_along_iff (cfg : UploadConfig) (es : List Event) :
    Along (step cfg) (fun _ _ s' => s'.Apart) initial es ↔
      Guarded (step cfg) (UploadsAlone cfg) initial es := by
  have hinitial : initial.Apart ∧ initial.Named cfg := ⟨⟨nofun, nofun⟩, nofun⟩
  refine along_iff_guarded (I := fun s => s.Apart ∧ s.Named cfg) ?_ ?_ hinitial
  · rintro s e s' ⟨h, hn⟩ hg hstep
    exact ⟨(apart_step_iff h hn hstep).2 hg, named_step hn hstep⟩
  · rintro s e s' ⟨h, hn⟩ hstep
    exact apart_step_iff h hn hstep

/-- The default refusals do not matter here. -/
def plainConfig : UploadConfig := ⟨⟨[".php"], true, toAsciiLowercase⟩, "/tmp", 7⟩

/-- A request with one file of one byte. -/
def oneFile (fname : String) (b : UInt8) : List Field :=
  [⟨some "upload", some fname, some "text/plain", some [b]⟩]

/-- The temp file of a first upload. -/
def firstPath : String := "/tmp/turbine_upload_7_0"

/-- Two requests upload one file each. -/
def twoUploads : List Event :=
  [.arrive (oneFile "a.txt" 1), .parse 0, .parse 0, .arrive (oneFile "b.txt" 2), .parse 1, .parse 1]

/-- Both get one path, which holds the second one's data; when the second request is
dropped, the first one has no file at all. -/
theorem uploads_collide :
    (∃ s c d, run (step plainConfig) initial twoUploads = some s ∧
      s.requests = [.alive c, .alive d] ∧
      c.files.map (·.tmpPath) = [firstPath] ∧ c.files.map (·.data) = [[1]] ∧
      d.files.map (·.tmpPath) = [firstPath] ∧ s.disk firstPath = some [2]) ∧
    ∃ s c, run (step plainConfig) initial (twoUploads ++ [.drop 1, .remove 1]) = some s ∧
      s.requests[0]? = some (.alive c) ∧ c.files.map (·.tmpPath) = [firstPath] ∧
      s.disk firstPath = none := by
  refine ⟨⟨_, _, _, rfl, rfl, ?_, ?_, ?_, ?_⟩, ⟨_, _, rfl, rfl, ?_, ?_⟩⟩
  · decide
  · decide
  · decide
  · decide
  · decide
  · decide

end Turbine.Http.Uploads
