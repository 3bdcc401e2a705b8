import Mathlib.Data.List.Dedup
import Mathlib.Data.List.Perm.Subperm
import Turbine.Base.Str
import Turbine.Base.Utf8

/-!
# Turbine.Http.Response

`build_response`: the HTTP response for a status, a content type, a body and the
headers of a script.  Eight fields are always there; headers that are not legal are
skipped, and if the builder still fails the answer is a plain 500.

* `same_filter_iff`: when leaving headers out does not change the response;
* `sameEndToEnd_bare_iff`: when leaving them all out does not change what reaches the
  other end.
-/

namespace Turbine.Http

open Base

/-! ## header maps -/

/-- What the `http` crate accepts: the names of `HeaderName::from_bytes`, the values of
`HeaderValue::from_str`, and the number of names that a `HeaderMap` has room for. -/
structure HeaderRules where
  validName : String → Bool
  validValue : String → Bool
  maxNames : Nat

/-- The characters of a header name. -/
def isTokenChar (c : Char) : Bool := c.isAlphanum || "!#$%&'*+-.^_`|~".toList.contains c

/-- The rules of the `http` crate in version 1. -/
def httpRules : HeaderRules where
  validName := fun name => !name.isEmpty && name.length < 65536 && name.toList.all isTokenChar
  validValue := fun value => value.toList.all fun c => c = '\t' || (32 ≤ c.toNat && c.toNat ≠ 127)
  maxNames := 24576

/-- A `HeaderMap`: the fields as they were appended, their names in lower case. -/
abbrev HeaderMap := List (String × String)

/-- The number of names in a map. -/
def nameCount (m : HeaderMap) : Nat := (m.map Prod.fst).dedup.length

/-- A field as the map keeps it. -/
def lowered (field : String × String) : String × String := (toAsciiLowercase field.1, field.2)

/-- `HeaderMap::try_append`. -/
def HeaderRules.tryAppend (rules : HeaderRules) (m : HeaderMap) (field : String × String) :
    Option HeaderMap :=
  if rules.validName field.1 ∧ nameCount m < rules.maxNames then some (m ++ [lowered field])
  else none

/-- `Builder::header`, of a text. -/
def HeaderRules.header (rules : HeaderRules) (m : HeaderMap) (field : String × String) :
    Option HeaderMap := if rules.validValue field.2 then rules.tryAppend m field else none

/-- `Builder::header` for one field after the other; the first error stays. -/
def HeaderRules.extend (rules : HeaderRules) (m : HeaderMap) :
    List (String × String) → Option HeaderMap
  | [] => some m
  | field :: fields => (rules.header m field).bind (rules.extend · fields)

/-! ## the builder -/

/-- A `hyper::Response`. -/
structure HttpResponse where
  status : UInt16
  headers : HeaderMap
  body : Bytes
deriving DecidableEq, Repr

/-- `StatusCode::from_u16`, or else `INTERNAL_SERVER_ERROR`. -/
def statusCode (status : UInt16) : UInt16 := if 100 ≤ status ∧ status ≤ 999 then status else 500

/-- The fields of every response but its content type and length. -/
def serverHeaders : List (String × String) :=
  [("Server", "Turbine/0.1.0"), ("X-Content-Type-Options", "nosniff"),
   ("X-Frame-Options", "SAMEORIGIN"), ("X-XSS-Protection", "0"),
   ("Referrer-Policy", "strict-origin-when-cross-origin"),
   ("Permissions-Policy", "camera=(), microphone=(), geolocation=()")]

/-- The builder before the extra headers.  The length is a number, so its value needs no
check. -/
def HeaderRules.standard (rules : HeaderRules) (contentType : String) (body : Bytes) :
    Option HeaderMap := do
  let m ← rules.header [] ("Content-Type", contentType)
  let m ← rules.tryAppend m ("Content-Length", toString body.length)
  rules.extend m serverHeaders

/-- An extra header that is not skipped. -/
def HeaderRules.accepts (rules : HeaderRules) (field : String × String) : Bool :=
  rules.validName field.1 && rules.validValue field.2

/-- The builder before `body`. -/
def HeaderRules.build (rules : HeaderRules) (contentType : String) (body : Bytes)
    (extraHeaders : List (String × String)) : Option HeaderMap :=
  (rules.standard contentType body).bind (rules.extend · (extraHeaders.filter rules.accepts))

/-- `build_response`. -/
def HeaderRules.buildResponse (rules : HeaderRules) (status : UInt16) (contentType : String)
    (body : Bytes) (extraHeaders : List (String × String)) : HttpResponse :=
  match rules.build contentType body extraHeaders with
  | some headers => ⟨statusCode status, headers, body⟩
  | none => ⟨500, [], utf8 "Internal response build error"⟩

variable {rules : HeaderRules} {m m' m₁ m₂ : HeaderMap} {field : String × String}
  {fields fields₁ fields₂ extra : List (String × String)} {status : UInt16} {contentType : String}
  {body : Bytes}

theorem tryAppend_eq_some : rules.tryAppend m field = some m' ↔
    (rules.validName field.1 ∧ nameCount m < rules.maxNames) ∧ m ++ [lowered field] = m' := by
  simp [HeaderRules.tryAppend]

theorem header_eq_some : rules.header m field = some m' ↔
    rules.validValue field.2 ∧ (rules.validName field.1 ∧ nameCount m < rules.maxNames) ∧
      m ++ [lowered field] = m' := by
  simp [HeaderRules.header, tryAppend_eq_some]

/-- The builder appends what it is given. -/
theorem eq_append_of_extend (h : rules.extend m fields = some m') :
    m' = m ++ fields.map lowered := by
  induction fields generalizing m with
  | nil =>
    obtain rfl := Option.some.inj h
    simp
  | cons field fields ih =>
    obtain ⟨m₁, hfirst, hrest⟩ := Option.bind_eq_some_iff.1 h
    obtain ⟨-, -, rfl⟩ := header_eq_some.1 hfirst
    rw [ih hrest, List.map_cons, List.append_assoc, List.singleton_append]

theorem nameCount_le (h : m₁.map Prod.fst ⊆ m₂.map Prod.fst) : nameCount m₁ ≤ nameCount m₂ := by
  have hsub : (m₁.map Prod.fst).dedup ⊆ (m₂.map Prod.fst).dedup := by
    intro name hname
    rw [List.mem_dedup] at hname ⊢
    exact h hname
  exact (List.subperm_of_subset (List.nodup_dedup _) hsub).length_le

/-- Whoever has room for some fields has room for fewer of them. -/
theorem extend_isSome_of_sublist (hfields : fields₁.Sublist fields₂)
    (hm : m₁.map Prod.fst ⊆ m₂.map Prod.fst) (h : (rules.extend m₂ fields₂).isSome) :
    (rules.extend m₁ fields₁).isSome := by
  induction hfields generalizing m₁ m₂ with
  | slnil => rfl
  | @cons fields₁ fields₂ field hfields ih =>
    obtain ⟨m', h⟩ := Option.isSome_iff_exists.1 h
    obtain ⟨m₃, hfirst, hrest⟩ := Option.bind_eq_some_iff.1 h
    obtain ⟨-, -, rfl⟩ := header_eq_some.1 hfirst
    have hm₃ : m₁.map Prod.fst ⊆ (m₂ ++ [lowered field]).map Prod.fst := by
      rw [List.map_append]
      exact List.subset_append_of_subset_left _ hm
    exact ih hm₃ (by rw [hrest]; rfl)
  | @cons_cons fields₁ fields₂ field hfields ih =>
    obtain ⟨m', h⟩ := Option.isSome_iff_exists.1 h
    obtain ⟨m₃, hfirst, hrest⟩ := Option.bind_eq_some_iff.1 h
    obtain ⟨hvalue, ⟨hname, hroom⟩, rfl⟩ := header_eq_some.1 hfirst
    have hfirst₁ : rules.header m₁ field = some (m₁ ++ [lowered field]) :=
      header_eq_some.2 ⟨hvalue, ⟨hname, Nat.lt_of_le_of_lt (nameCount_le hm) hroom⟩, rfl⟩
    have hm₃ : (m₁ ++ [lowered field]).map Prod.fst ⊆ (m₂ ++ [lowered field]).map Prod.fst := by
      intro name hname
      rw [List.map_append, List.mem_append] at hname ⊢
      exact hname.imp_left fun h => hm h
    rw [HeaderRules.extend, hfirst₁, Option.bind_some]
    exact ih hm₃ (by rw [hrest]; rfl)

/-- Legal fields are all appended iff there is room when the last one comes. -/
theorem extend_isSome_iff (hfields : ∀ field ∈ fields, rules.accepts field = true) :
    (rules.extend m fields).isSome ↔
      fields = [] ∨ nameCount (m ++ fields.dropLast.map lowered) < rules.maxNames := by
  induction fields generalizing m with
  | nil => simp [HeaderRules.extend]
  | cons field fields ih =>
    obtain ⟨hfield, hfields⟩ := List.forall_mem_cons.1 hfields
    obtain ⟨hname, hvalue⟩ := Bool.and_eq_true_iff.1 hfield
    have hheader : rules.header m field =
        if nameCount m < rules.maxNames then some (m ++ [lowered field]) else none := by
      simp [HeaderRules.header, HeaderRules.tryAppend, hname, hvalue]
    rw [HeaderRules.extend, hheader]
    cases fields with
    | nil => by_cases hroom : nameCount m < rules.maxNames <;> simp [hroom, HeaderRules.extend]
    | cons next fields =>
      have hmore : m ++ (field :: next :: fields).dropLast.map lowered =
          m ++ [lowered field] ++ (next :: fields).dropLast.map lowered := by simp
      have hle : nameCount m ≤ nameCount (m ++ (field :: next :: fields).dropLast.map lowered) :=
        nameCount_le (by simp)
      by_cases hroom : nameCount m < rules.maxNames
      · rw [if_pos hroom, Option.bind_some, ih hfields, hmore]
        simp
      · have hfull : ¬ nameCount (m ++ (field :: next :: fields).dropLast.map lowered) <
            rules.maxNames := by omega
        rw [if_neg hroom, Option.bind_none]
        simpa using hfull

/-! ## the headers of a response -/

theorem standard_eq_some (h : rules.standard contentType body = some m) :
    m = [("Content-Type", contentType), ("Content-Length", toString body.length)].map lowered ++
      serverHeaders.map lowered := by
  obtain ⟨m₁, htype, h⟩ := Option.bind_eq_some_iff.1 h
  obtain ⟨m₂, hlength, h⟩ := Option.bind_eq_some_iff.1 h
  obtain ⟨-, -, rfl⟩ := header_eq_some.1 htype
  obtain ⟨-, rfl⟩ := tryAppend_eq_some.1 hlength
  rw [eq_append_of_extend h]
  rfl

/-- A response has the standard fields, and the extra ones that are not skipped. -/
theorem build_eq_some (h : rules.build contentType body extra = some m) :
    ∃ m₀, rules.standard contentType body = some m₀ ∧
      m = m₀ ++ (extra.filter rules.accepts).map lowered := by
  obtain ⟨m₀, hstandard, h⟩ := Option.bind_eq_some_iff.1 h
  exact ⟨m₀, hstandard, eq_append_of_extend h⟩

/-- The fields of a response before the extra ones. -/
def standardFields (contentType : String) (body : Bytes) : List (String × String) :=
  [("Content-Type", contentType), ("Content-Length", toString body.length)] ++ serverHeaders

theorem nameCount_le_length : nameCount m ≤ m.length := by
  have hle := (List.dedup_sublist (m.map Prod.fst)).length_le
  rwa [List.length_map] at hle

/-- A name by its characters. -/
theorem validName_ofList {name : List Char}
    (h : (!name.isEmpty && name.length < 65536 && name.all isTokenChar) = true) :
    httpRules.validName (String.ofList name) = true := by
  simp_all [httpRules]

/-- A field by the characters of its texts. -/
theorem accepts_ofList {name value : List Char}
    (hname : (!name.isEmpty && name.length < 65536 && name.all isTokenChar) = true)
    (hvalue : (value.all fun c => c = '\t' || (32 ≤ c.toNat && c.toNat ≠ 127)) = true) :
    httpRules.accepts (String.ofList name, String.ofList value) = true := by
  rw [HeaderRules.accepts, validName_ofList hname]
  simp_all [httpRules]

theorem accepts_serverHeaders : ∀ field ∈ serverHeaders, httpRules.accepts field = true := by
  simp only [serverHeaders, List.forall_mem_cons]
  exact ⟨accepts_ofList (by decide) (by decide), accepts_ofList (by decide) (by decide),
    accepts_ofList (by decide) (by decide), accepts_ofList (by decide) (by decide),
    accepts_ofList (by decide) (by decide), accepts_ofList (by decide) (by decide),
    List.forall_mem_nil _⟩

theorem nameCount_lt_maxNames (h : m.length < 24576) : nameCount m < httpRules.maxNames :=
  Nat.lt_of_le_of_lt nameCount_le_length h

theorem extend_serverHeaders (h : m.length = 2) :
    httpRules.extend m serverHeaders = some (m ++ serverHeaders.map lowered) := by
  have hroom : nameCount (m ++ serverHeaders.dropLast.map lowered) < httpRules.maxNames :=
    nameCount_lt_maxNames (by simp [h, serverHeaders])
  have hsome : (httpRules.extend m serverHeaders).isSome :=
    (extend_isSome_iff accepts_serverHeaders).2 (.inr hroom)
  obtain ⟨m', hextend⟩ := Option.isSome_iff_exists.1 hsome
  rw [hextend, eq_append_of_extend hextend]

/-- The standard fields are legal if the content type is, and there is room for them. -/
theorem standard_httpRules (h : httpRules.validValue contentType = true) :
    httpRules.standard contentType body =
      some ((standardFields contentType body).map lowered) := by
  have hnames : httpRules.validName "Content-Type" = true ∧
      httpRules.validName "Content-Length" = true :=
    ⟨validName_ofList (by decide), validName_ofList (by decide)⟩
  have htype : httpRules.header [] ("Content-Type", contentType) =
      some [lowered ("Content-Type", contentType)] :=
    header_eq_some.2 ⟨h, ⟨hnames.1, nameCount_lt_maxNames (by simp)⟩, rfl⟩
  have hlength : httpRules.tryAppend [lowered ("Content-Type", contentType)]
        ("Content-Length", toString body.length) =
      some [lowered ("Content-Type", contentType),
        lowered ("Content-Length", toString body.length)] :=
    tryAppend_eq_some.2 ⟨⟨hnames.2, nameCount_lt_maxNames (by simp)⟩, rfl⟩
  have hserver : httpRules.extend [lowered ("Content-Type", contentType),
        lowered ("Content-Length", toString body.length)] serverHeaders =
      some ((standardFields contentType body).map lowered) := by
    rw [extend_serverHeaders (by simp), standardFields, List.map_append, List.map_cons,
      List.map_cons, List.map_nil]
  have hsteps : httpRules.standard contentType body =
      (httpRules.header [] ("Content-Type", contentType)).bind fun m =>
        (httpRules.tryAppend m ("Content-Length", toString body.length)).bind fun m =>
          httpRules.extend m serverHeaders := rfl
  rw [hsteps, htype, Option.bind_some, hlength, Option.bind_some, hserver]

/-- A few legal headers are always sent. -/
theorem build_of_few (h : httpRules.validValue contentType = true)
    (hextra : ∀ field ∈ extra, httpRules.accepts field = true) (hfew : extra.length ≤ 24000) :
    httpRules.build contentType body extra =
      some ((standardFields contentType body ++ extra).map lowered) := by
  have hroom : nameCount ((standardFields contentType body).map lowered ++
      extra.dropLast.map lowered) < httpRules.maxNames := by
    refine nameCount_lt_maxNames ?_
    simp only [standardFields, serverHeaders, List.length_map, List.length_append,
      List.length_cons, List.length_nil, List.length_dropLast]
    omega
  obtain ⟨m, hextend⟩ := Option.isSome_iff_exists.1 ((extend_isSome_iff hextra).2 (.inr hroom))
  rw [HeaderRules.build, standard_httpRules h, Option.bind_some, List.filter_eq_self.2 hextra,
    hextend, eq_append_of_extend hextend, List.map_append]

/-- If the builder fails, it fails with more headers too. -/
theorem build_isSome_of_sublist (hextra : fields₁.Sublist fields₂)
    (h : (rules.build contentType body fields₂).isSome) :
    (rules.build contentType body fields₁).isSome := by
  unfold HeaderRules.build at h ⊢
  cases hstandard : rules.standard contentType body with
  | none =>
    rw [hstandard] at h
    exact h
  | some m₀ =>
    rw [hstandard, Option.bind_some] at h
    rw [Option.bind_some]
    exact extend_isSome_of_sublist (hextra.filter _) (List.Subset.refl _) h

/-! ## comparing responses -/

/-- The same status, the same body and the same fields. -/
def HttpResponse.Same (a b : HttpResponse) : Prop :=
  a.status = b.status ∧ a.body = b.body ∧ a.headers.Perm b.headers

instance (a b : HttpResponse) : Decidable (a.Same b) := inferInstanceAs (Decidable (_ ∧ _ ∧ _))

/-- The fields that are for the next hop only. -/
def hopByHop : List String :=
  ["connection", "keep-alive", "proxy-connection", "proxy-authenticate", "proxy-authorization",
   "te", "trailer", "transfer-encoding", "upgrade"]

/-- A field for the other end. -/
def isEndToEnd (field : String × String) : Bool := !hopByHop.contains field.1

def HttpResponse.endToEnd (a : HttpResponse) : HeaderMap := a.headers.filter isEndToEnd

/-- The same for the other end. -/
def HttpResponse.SameEndToEnd (a b : HttpResponse) : Prop :=
  a.status = b.status ∧ a.body = b.body ∧ a.endToEnd.Perm b.endToEnd

instance (a b : HttpResponse) : Decidable (a.SameEndToEnd b) :=
  inferInstanceAs (Decidable (_ ∧ _ ∧ _))

theorem HttpResponse.Same.refl (a : HttpResponse) : a.Same a := ⟨rfl, rfl, .refl _⟩

theorem HttpResponse.SameEndToEnd.refl (a : HttpResponse) : a.SameEndToEnd a := ⟨rfl, rfl, .refl _⟩

theorem buildResponse_of_some (h : rules.build contentType body extra = some m) :
    rules.buildResponse status contentType body extra = ⟨statusCode status, m, body⟩ := by
  rw [HeaderRules.buildResponse, h]

theorem buildResponse_of_none (h : rules.build contentType body extra = none) :
    rules.buildResponse status contentType body extra =
      ⟨500, [], utf8 "Internal response build error"⟩ := by
  rw [HeaderRules.buildResponse, h]

theorem buildResponse_of_few (h : httpRules.validValue contentType = true)
    (hextra : ∀ field ∈ extra, httpRules.accepts field = true) (hfew : extra.length ≤ 24000) :
    httpRules.buildResponse status contentType body extra =
      ⟨statusCode status, (standardFields contentType body ++ extra).map lowered, body⟩ :=
  buildResponse_of_some (build_of_few h hextra hfew)

/-- The standard fields are for the other end. -/
theorem endToEnd_standard (h : rules.standard contentType body = some m) :
    m.filter isEndToEnd = m := by
  have hnames : ∀ name ∈ m.map Prod.fst, hopByHop.contains name = false := by
    have hm : m.map Prod.fst =
        (["Content-Type", "Content-Length"] ++ serverHeaders.map Prod.fst).map toAsciiLowercase := by
      rw [standard_eq_some h]
      rfl
    rw [hm]
    decide
  refine List.filter_eq_self.2 fun field hfield => ?_
  rw [isEndToEnd, hnames field.1 (List.mem_map_of_mem hfield)]
  rfl

theorem standard_ne_nil (h : rules.standard contentType body = some m) : m ≠ [] := by
  rw [standard_eq_some h]
  exact List.cons_ne_nil _ _

/-- Two responses of the builder have the same fields if the extra headers that are not
skipped are the same. -/
theorem same_iff_of_sublist (hextra : fields₁.Sublist fields₂)
    (h : rules.build contentType body fields₁ = some m) :
    (rules.buildResponse status contentType body fields₂).Same
        (rules.buildResponse status contentType body fields₁) ↔
      fields₁.filter rules.accepts = fields₂.filter rules.accepts := by
  obtain ⟨m₀, hstandard, rfl⟩ := build_eq_some h
  constructor
  · rintro ⟨-, -, hperm⟩
    cases hmore : rules.build contentType body fields₂ with
    | none =>
      -- an error page has no fields, a response has
      rw [buildResponse_of_none hmore, buildResponse_of_some h] at hperm
      have hnil := hperm.nil_eq
      simp [standard_ne_nil hstandard] at hnil
    | some m₂ =>
      obtain ⟨m₀', hstandard', rfl⟩ := build_eq_some hmore
      obtain rfl := Option.some.inj (hstandard.symm.trans hstandard')
      rw [buildResponse_of_some hmore, buildResponse_of_some h] at hperm
      have hlength := hperm.length_eq
      simp only [List.length_append, List.length_map, Nat.add_left_cancel_iff] at hlength
      exact (hextra.filter rules.accepts).eq_of_length hlength.symm
  · intro hsame
    have hresponse : rules.buildResponse status contentType body fields₂ =
        rules.buildResponse status contentType body fields₁ := by
      simp only [HeaderRules.buildResponse, HeaderRules.build, hsame]
    rw [hresponse]
    exact .refl _

/-- Leaving out headers does not change the response exactly if none of those left out
is a legal one, or if there is no response anyway. -/
theorem same_filter_iff (keep : String × String → Bool) :
    (rules.buildResponse status contentType body extra).Same
        (rules.buildResponse status contentType body (extra.filter keep)) ↔
      rules.build contentType body (extra.filter keep) = none ∨
        ∀ field ∈ extra, rules.accepts field = true → keep field = true := by
  have hfewer : (extra.filter keep).Sublist extra := List.filter_sublist
  cases hkept : rules.build contentType body (extra.filter keep) with
  | none =>
    have hall : rules.build contentType body extra = none := by
      rw [← Option.not_isSome_iff_eq_none]
      intro h
      have hsome := build_isSome_of_sublist hfewer h
      simp [hkept] at hsome
    rw [buildResponse_of_none hkept, buildResponse_of_none hall]
    simp [HttpResponse.Same.refl]
  | some m =>
    rw [same_iff_of_sublist hfewer hkept, List.filter_comm, List.filter_eq_self]
    simp

/-- Leaving out all headers does not change what reaches the other end exactly if the
legal ones are for the next hop only, or if there is no response anyway. -/
theorem sameEndToEnd_bare_iff :
    (rules.buildResponse status contentType body []).SameEndToEnd
        (rules.buildResponse status contentType body extra) ↔
      rules.standard contentType body = none ∨
        (rules.build contentType body extra ≠ none ∧
          ∀ field ∈ extra, rules.accepts field = true → isEndToEnd (lowered field) = false) := by
  have hbare : rules.build contentType body [] = rules.standard contentType body := by
    simp [HeaderRules.build, HeaderRules.extend]
  cases hstandard : rules.standard contentType body with
  | none =>
    have hall : rules.build contentType body extra = none := by
      rw [HeaderRules.build, hstandard, Option.bind_none]
    rw [buildResponse_of_none hall, buildResponse_of_none (hbare.trans hstandard)]
    simp [HttpResponse.SameEndToEnd.refl]
  | some m₀ =>
    rw [buildResponse_of_some (hbare.trans hstandard)]
    have hm₀ : m₀.filter isEndToEnd = m₀ := endToEnd_standard hstandard
    cases hall : rules.build contentType body extra with
    | none =>
      rw [buildResponse_of_none hall]
      simp [HttpResponse.SameEndToEnd, HttpResponse.endToEnd, hm₀, standard_ne_nil hstandard]
    | some m =>
      obtain ⟨m₀', hstandard', rfl⟩ := build_eq_some hall
      obtain rfl := Option.some.inj (hstandard.symm.trans hstandard')
      rw [buildResponse_of_some hall]
      have hperm (l : HeaderMap) : m₀.Perm (m₀ ++ l) ↔ l = [] := by
        have h : (m₀ ++ []).Perm (m₀ ++ l) ↔ [].Perm l := List.perm_append_left_iff m₀
        simpa using h
      simp only [HttpResponse.SameEndToEnd, HttpResponse.endToEnd, List.filter_append, hm₀,
        hperm, List.filter_eq_nil_iff, List.forall_mem_map, List.mem_filter, and_imp,
        Bool.not_eq_true, true_and, reduceCtorEq, false_or, ne_eq, not_false_eq_true]

end Turbine.Http
