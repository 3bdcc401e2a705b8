import Turbine.Base.Separators
import Turbine.Http.Request
import Turbine.Security.Input

/-!
# Turbine.Server.InputScan

The part of `handle_request_inner` that hands the values of a request to the security
layer: the parameters of the query, those of the body, or else the first bytes of the body
as they are.

The parameters of a form are decoded if the content type begins with the name of the media
type in lower case.  Ill-formed bytes are replaced before the percent signs are decoded.

* `form_values_scanned_iff`: when all values of a form are scanned.
-/

namespace Turbine.Server

open Base Http Security

/-! ## the list that is scanned -/

/-- `BODY_SCAN_LIMIT`. -/
def bodyScanLimit : Nat := 8192

/-- `raw_body_str`. -/
def rawBodyStr (r : FullHttpRequest) : String :=
  if !r.body.isEmpty && r.postParams.isEmpty then fromUtf8Lossy (r.body.take bodyScanLimit) else ""

/-- `all_params`. -/
def scanParams (r : FullHttpRequest) : List (String × String) :=
  r.getParams ++ r.postParams ++
    if (rawBodyStr r).isEmpty then [] else [("_body", rawBodyStr r)]

/-- What the handler passes to `check_input`, if it calls it. -/
def passedParams (cfg : SecurityConfig) (r : FullHttpRequest) : Option (List (String × String)) :=
  if cfg.needsInputScan then some (scanParams r)
  else if cfg.needsBehaviourCheck then some []
  else none

/-- `input_verdict`. -/
def inputVerdict {Ip : Type} [DecidableEq Ip] {cfg : SecurityConfig} (env : Environment)
    (layer : SecurityLayer Ip cfg) (ip : Ip) (now : Nat) (r : FullHttpRequest) :
    SecurityLayer Ip cfg × InputVerdict :=
  match passedParams cfg r with
  | some params => layer.checkInput env ip now r.path params
  | none => (layer, .allow)

/-! ## forms -/

def formType : String := "application/x-www-form-urlencoded"

/-- The media type is that of a form, up to case and without its parameters. -/
def IsForm (contentType : String) : Prop :=
  eqIgnoreAsciiCase (trim ((split contentType ';').headD "")) formType = true

theorem isForm_iff {contentType : String} : IsForm contentType ↔
    (trimChars ((contentType.toList.splitOn ';').headD [])).map Char.toLower =
      lowerChars formType := by
  have hhead : (split contentType ';').headD "" =
      String.ofList ((contentType.toList.splitOn ';').headD []) := by
    rw [split]
    cases contentType.toList.splitOn ';' <;> rfl
  rw [IsForm, eqIgnoreAsciiCase_iff, hhead, trim_eq, String.toList_ofList, lowerChars,
    String.toList_ofList]

instance {contentType : String} : Decidable (IsForm contentType) :=
  decidable_of_iff _ isForm_iff.symm

/-- The `key=value` pairs of a body, in bytes and as they are encoded. -/
def formPairs (body : Bytes) : List (Bytes × Bytes) := (body.splitOn 0x26).filterMap (cutOnce 0x3D)

/-- The value of a pair, decoded and read as a text. -/
def decodedValue (value : Bytes) : String := fromUtf8Lossy (urlDecodeBytes value)

/-- The value with its ill-formed bytes replaced before it is decoded. -/
def replacedValue (value : Bytes) : String := urlDecode (fromUtf8Lossy value)

/-- The scanned values have the decoded value of every pair with a key. -/
def ScansForm (params : List (String × String)) (body : Bytes) : Prop :=
  ∀ pair ∈ formPairs body, pair.1 ≠ [] → decodedValue pair.2 ∈ params.map Prod.snd

instance {params : List (String × String)} {body : Bytes} :
    Decidable (ScansForm params body) := inferInstanceAs (Decidable (∀ pair ∈ _, _))

/-! ## well-formed bodies -/

theorem fromUtf8Lossy_toList (bytes : Bytes) :
    (fromUtf8Lossy bytes).toList = lossyChars bytes := String.toList_ofList

theorem respects_ampersand : Respects lossyChars 0x26 '&' :=
  respects_lossyChars (by decide) (by decide) (by decide)

theorem respects_equals : Respects lossyChars 0x3D '=' :=
  respects_lossyChars (by decide) (by decide) (by decide)

/-- A text has no ill-formed bytes. -/
theorem replacedValue_of_utf8 {text : String} {pair : Bytes × Bytes}
    (h : pair ∈ formPairs (utf8 text)) : replacedValue pair.2 = decodedValue pair.2 := by
  have hamp : Respects encodeChars '&' 0x26 := respects_encodeChars (by decide) (by decide)
  have heq : Respects encodeChars '=' 0x3D := respects_encodeChars (by decide) (by decide)
  rw [formPairs, utf8, hamp.splitOn] at h
  obtain ⟨piece, hpiece, hcut⟩ := List.mem_filterMap.1 h
  obtain ⟨chars, -, rfl⟩ := List.mem_map.1 hpiece
  rw [heq.cutOnce] at hcut
  obtain ⟨cut, -, rfl⟩ := Option.map_eq_some_iff.1 hcut
  -- the value is the UTF-8 of some text, which is read back
  have htext : encodeChars cut.2 = utf8 (String.ofList cut.2) := by rw [utf8, String.toList_ofList]
  rw [replacedValue, decodedValue, htext, fromUtf8Lossy_utf8]
  rfl

/-! ## what is scanned -/

variable {r : FullHttpRequest} {ct : String}

/-- A pair as `parse_urlencoded` makes it from a piece of the body. -/
def parsedPair (piece : Bytes) : Option (String × String) :=
  let pair := (cutOnce 0x3D piece).getD (piece, [])
  if pair.1 = [] then none
  else some (urlDecode (fromUtf8Lossy pair.1), replacedValue pair.2)

theorem parsedPair_eq (piece : Bytes) :
    (let (k, v) := (splitOnce (fromUtf8Lossy piece) '=').getD (fromUtf8Lossy piece, "")
     if k.isEmpty then none else some (urlDecode k, urlDecode v)) = parsedPair piece := by
  rw [splitOnce_eq, fromUtf8Lossy_toList, respects_equals.cutOnce, parsedPair]
  cases cutOnce 0x3D piece with
  | none => simp [lossyChars_eq_nil_iff, fromUtf8Lossy, replacedValue]
  | some cut => simp [lossyChars_eq_nil_iff, fromUtf8Lossy, replacedValue]

/-- Parsing the text of a body is parsing the pieces of its bytes. -/
theorem parseUrlencoded_fromUtf8Lossy (body : Bytes) :
    parseUrlencoded (fromUtf8Lossy body) = (body.splitOn 0x26).filterMap parsedPair := by
  by_cases hbody : body = []
  · subst hbody
    simp [parseUrlencoded, fromUtf8Lossy, parsedPair, cutOnce]
  · have hne : ¬ (fromUtf8Lossy body).isEmpty = true := by
      rw [String.isEmpty_iff, ← String.toList_inj, fromUtf8Lossy_toList]
      exact fun h => hbody (lossyChars_eq_nil_iff.1 h)
    have hpieces : split (fromUtf8Lossy body) '&' = (body.splitOn 0x26).map fromUtf8Lossy := by
      rw [split, fromUtf8Lossy_toList, respects_ampersand.splitOn, List.map_map]
      rfl
    rw [parseUrlencoded, if_neg hne, hpieces, List.filterMap_map, ← funext parsedPair_eq]
    rfl

theorem trimChars_cons {c : Char} (hc : isWhitespace c = false) (cs : List Char) :
    ∃ more, trimChars (c :: cs) = c :: more := by
  have hkeep : ¬ isWhitespace c = true := by simp [hc]
  rw [trimChars, List.dropWhile_cons_of_neg hkeep, List.reverse_cons, List.dropWhile_append]
  split
  · exact ⟨[], by rw [List.dropWhile_cons_of_neg hkeep]; rfl⟩
  · exact ⟨(cs.reverse.dropWhile isWhitespace).reverse, by simp⟩

/-- A content type does not name both media types: one begins with an `m`, the other with an
`a`. -/
theorem not_multipart_of_isForm (hform : IsForm ct) :
    startsWith ct "multipart/form-data" = false := by
  rw [Bool.eq_false_iff]
  intro hmultipart
  obtain ⟨rest, hct⟩ := List.isPrefixOf_iff_prefix.1 hmultipart
  obtain ⟨cs, hct⟩ : ∃ cs, ct.toList = 'm' :: cs := ⟨_, hct.symm⟩
  obtain ⟨piece, pieces, hcs⟩ := List.exists_cons_of_ne_nil (List.splitOn_ne_nil ';' cs)
  have hsplit : ct.toList.splitOn ';' = ('m' :: piece) :: pieces := by
    rw [hct, List.splitOn_cons_eq_if_modifyHead, hcs]
    rfl
  obtain ⟨more, htrim⟩ := trimChars_cons (c := 'm') (by decide) piece
  rw [isForm_iff, hsplit, List.headD_cons, htrim, List.map_cons] at hform
  have hfirst := congrArg List.head? hform
  simp [lowerChars, formType] at hfirst

/-- A form has no parts. -/
theorem multipartPostParams_of_form {ucfg : UploadConfig} {multer : Multer} {maxBody : Option Nat}
    {req : Incoming} (h : FullHttpRequest.fromHyper ucfg multer maxBody req = .ok r)
    (hct : r.contentType = some ct) (hform : IsForm ct) : r.multipartPostParams = [] := by
  have hpart := not_multipart_of_isForm hform
  unfold FullHttpRequest.fromHyper at h
  dsimp only at h
  split at h
  · cases h
  · cases hbody : readBody maxBody [] req.frames with
    | error e =>
      rw [hbody] at h
      cases h
    | ok body =>
      rw [hbody] at h
      cases h
      simp only at hct
      simp only [hct, hpart, Bool.false_eq_true, if_false]

/-- The parameters of a form whose type is written in lower case are its pieces. -/
theorem postParams_of_form (hpost : r.method = "POST") (hparts : r.multipartPostParams = [])
    (hct : r.contentType = some ct) (hlower : startsWith ct formType = true) :
    r.postParams = (r.body.splitOn 0x26).filterMap parsedPair := by
  have htype : startsWith ct "application/x-www-form-urlencoded" = true := hlower
  rw [FullHttpRequest.postParams, ← parseUrlencoded_fromUtf8Lossy]
  simp [hpost, hparts, hct, htype]

/-- Otherwise it has none. -/
theorem postParams_eq_nil (hparts : r.multipartPostParams = [])
    (hct : r.contentType = some ct) (hother : startsWith ct formType = false) :
    r.postParams = [] := by
  have htype : startsWith ct "application/x-www-form-urlencoded" = false := hother
  rw [FullHttpRequest.postParams]
  simp [hparts, hct, htype]

theorem decodedValue_eq_empty {value : Bytes} (h : decodedValue value = "") : value = [] := by
  rw [decodedValue, ← String.toList_inj, fromUtf8Lossy_toList] at h
  have hnil : urlDecodeBytes value = [] := lossyChars_eq_nil_iff.1 h
  revert hnil
  fun_cases urlDecodeBytes value <;> simp

/-- The decoded value of a pair is among the parameters iff it is that of a pair whose
ill-formed bytes were replaced first. -/
theorem decodedValue_mem_iff {body : Bytes} {pair : Bytes × Bytes}
    (hpair : pair ∈ formPairs body) (hkey : pair.1 ≠ []) :
    decodedValue pair.2 ∈ ((body.splitOn 0x26).filterMap parsedPair).map Prod.snd ↔
      ∃ other ∈ formPairs body, other.1 ≠ [] ∧ replacedValue other.2 = decodedValue pair.2 := by
  constructor
  · intro hmem
    obtain ⟨param, hparam, hvalue⟩ := List.mem_map.1 hmem
    obtain ⟨piece, hpiece, hparsed⟩ := List.mem_filterMap.1 hparam
    rw [parsedPair, Option.ite_none_left_eq_some, Option.some.injEq] at hparsed
    obtain ⟨hother, rfl⟩ := hparsed
    cases hcut : cutOnce 0x3D piece with
    | some other =>
      rw [hcut] at hother hvalue
      exact ⟨other, List.mem_filterMap.2 ⟨piece, hpiece, hcut⟩, hother, hvalue⟩
    | none =>
      -- a piece without an equals sign has the empty value, and so has the pair
      have hlossy : fromUtf8Lossy [] = "" := fromUtf8Lossy_utf8 ""
      have hempty : replacedValue [] = "" := by
        rw [replacedValue, hlossy]
        exact hlossy
      rw [hcut] at hvalue
      refine ⟨pair, hpair, hkey, ?_⟩
      rw [decodedValue_eq_empty (hvalue.symm.trans hempty), hempty]
      exact hlossy.symm
  · rintro ⟨other, hother, hne, hvalue⟩
    obtain ⟨piece, hpiece, hcut⟩ := List.mem_filterMap.1 hother
    have hparsed : parsedPair piece =
        some (urlDecode (fromUtf8Lossy other.1), replacedValue other.2) := by
      simp [parsedPair, hcut, hne]
    rw [← hvalue]
    exact List.mem_map_of_mem (List.mem_filterMap.2 ⟨piece, hpiece, hparsed⟩)

/-- With the parameters of a pair, the raw body is not passed on. -/
theorem rawBodyStr_of_pair {pair : Bytes × Bytes}
    (hparams : r.postParams = (r.body.splitOn 0x26).filterMap parsedPair)
    (hpair : pair ∈ formPairs r.body) (hkey : pair.1 ≠ []) : rawBodyStr r = "" := by
  have hsome : r.postParams ≠ [] := by
    rw [hparams]
    intro hnil
    obtain ⟨piece, hpiece, hcut⟩ := List.mem_filterMap.1 hpair
    have hnone := List.filterMap_eq_nil_iff.1 hnil piece hpiece
    simp [parsedPair, hcut, hkey] at hnone
  simp [rawBodyStr, hsome]

/-- Without parameters, its beginning is. -/
theorem rawBodyStr_of_none (hnone : r.postParams = []) (hbody : r.body ≠ []) :
    rawBodyStr r = fromUtf8Lossy (r.body.take bodyScanLimit) ∧ (rawBodyStr r).isEmpty = false := by
  have hraw : rawBodyStr r = fromUtf8Lossy (r.body.take bodyScanLimit) := by
    simp [rawBodyStr, hnone, hbody]
  refine ⟨hraw, ?_⟩
  rw [hraw, Bool.eq_false_iff]
  intro hempty
  rw [String.isEmpty_iff, ← String.toList_inj, fromUtf8Lossy_toList] at hempty
  have hnil : r.body.take bodyScanLimit = [] := lossyChars_eq_nil_iff.1 hempty
  simp [bodyScanLimit, hbody] at hnil

/-- For every form that is posted and every body: the list that is passed on has the decoded
values of all pairs with a key, iff each of them is one of the query's, or the content type is
written in lower case and the value is the same for this pair, or happens to be that of another,
when ill-formed bytes are replaced first, or the content type is not and the value happens to be
the first 8192 bytes of the body. -/
theorem form_values_scanned_iff (cfg : SecurityConfig) (hscan : cfg.needsInputScan = true)
    (ucfg : UploadConfig) (multer : Multer) (maxBody : Option Nat) (req : Incoming)
    (r : FullHttpRequest) (h : FullHttpRequest.fromHyper ucfg multer maxBody req = .ok r)
    (hpost : r.method = "POST") (ct : String) (hct : r.contentType = some ct) (hform : IsForm ct) :
    ∃ params, passedParams cfg r = some params ∧
      (ScansForm params r.body ↔ ∀ pair ∈ formPairs r.body, pair.1 ≠ [] →
        decodedValue pair.2 ∈ r.getParams.map Prod.snd ∨
          (startsWith ct formType = true ∧ ∃ other ∈ formPairs r.body, other.1 ≠ [] ∧
            replacedValue other.2 = decodedValue pair.2) ∨
          (startsWith ct formType = false ∧
            decodedValue pair.2 = fromUtf8Lossy (r.body.take bodyScanLimit))) := by
  refine ⟨scanParams r, by rw [passedParams, if_pos hscan], ?_⟩
  have hparts := multipartPostParams_of_form h hct hform
  refine forall₃_congr fun pair hpair hkey => ?_
  cases hlower : startsWith ct formType with
  | true =>
    have hparams := postParams_of_form hpost hparts hct hlower
    rw [scanParams, rawBodyStr_of_pair hparams hpair hkey, hparams, List.map_append,
      List.map_append, List.mem_append, List.mem_append, decodedValue_mem_iff hpair hkey]
    simp
  | false =>
    have hnone := postParams_eq_nil hparts hct hlower
    have hbody : r.body ≠ [] := fun hnil => by rw [hnil] at hpair; cases hpair
    obtain ⟨hraw, hne⟩ := rawBodyStr_of_none hnone hbody
    rw [scanParams, hnone, hne]
    simp [hraw]

/-! ## two forms -/

/-- A form as it comes in, with a given content type. -/
def formIncoming (contentType : String) (body : Bytes) : Incoming where
  method := "POST"
  path := "/"
  query := none
  version := "HTTP/1.1"
  headers := [("content-type", utf8 contentType)]
  frames := [.data body]

/-- The form as the handler has it. -/
def formRequest (contentType : String) (body : Bytes) : FullHttpRequest where
  method := "POST"
  path := "/"
  queryString := ""
  httpVersion := "HTTP/1.1"
  headers := [("content-type", contentType)]
  cookies := []
  body
  contentType := some contentType
  contentLength := none
  files := []
  multipartPostParams := []

/-- It has no query. -/
theorem passedParams_formRequest (contentType : String) (body : Bytes) :
    passedParams {} (formRequest contentType body) =
      some ((formRequest contentType body).postParams ++
        if (rawBodyStr (formRequest contentType body)).isEmpty then []
        else [("_body", rawBodyStr (formRequest contentType body))]) := by
  have hscan : ({} : SecurityConfig).needsInputScan = true := by decide
  have hquery : (formRequest contentType body).getParams = [] := rfl
  rw [passedParams, if_pos hscan, scanParams, hquery, List.nil_append]

def plainUploads : UploadConfig := ⟨⟨[], false, toAsciiLowercase⟩, "/tmp", 1⟩

/-- The body `q=sleep%28`. -/
def sleepBody : Bytes := utf8 "q=sleep%28"

theorem decodedValue_sleepBody : decodedValue (utf8 "sleep%28") = "sleep(" := by
  have hbytes : urlDecodeBytes (utf8 "sleep%28") = utf8 "sleep(" := by decide
  rw [decodedValue, hbytes, fromUtf8Lossy_utf8]

/-- With the usual spelling the value is decoded. -/
theorem form_values_scanned_lower :
    FullHttpRequest.fromHyper plainUploads (fun _ _ => []) none (formIncoming formType sleepBody) =
        .ok (formRequest formType sleepBody) ∧
      ∃ params, passedParams {} (formRequest formType sleepBody) = some params ∧
        "sleep(" ∈ params.map Prod.snd := by
  refine ⟨rfl, ?_⟩
  obtain ⟨params, hpassed, hscans⟩ := form_values_scanned_iff {} (by decide) plainUploads
    (fun _ _ => []) none (formIncoming formType sleepBody) (formRequest formType sleepBody) rfl rfl
    formType rfl (by decide)
  have hall := hscans.2 (fun pair hpair hkey => .inr (.inl ⟨by decide, pair, hpair, hkey,
    replacedValue_of_utf8 hpair⟩)) (utf8 "q", utf8 "sleep%28") (by decide) (by decide)
  rw [decodedValue_sleepBody] at hall
  exact ⟨params, hpassed, hall⟩

/-- A body with half of an `é` as a byte and the other half encoded. -/
def halfBody : Bytes := utf8 "q=" ++ 0xC3 :: utf8 "%A9"

theorem lossyChars_half (b : UInt8) (h : decodeHead [b] = none) : lossyChars [b] = ['�'] := by
  rw [lossyChars_of_none (List.cons_ne_nil _ _) h]
  exact congrArg _ lossyChars_nil

theorem postParams_halfBody : (formRequest formType halfBody).postParams = [("q", "��")] := by
  have hread : fromUtf8Lossy (0xC3 :: utf8 "%A9") = "�%A9" := by
    have hsplit : lossyChars ([0xC3] ++ 0x25 :: utf8 "A9") =
        lossyChars [0xC3] ++ lossyChars (0x25 :: utf8 "A9") :=
      lossyChars_append_ascii _ _ (by decide)
    have htail : lossyChars (0x25 :: utf8 "A9") = "%A9".toList :=
      lossyChars_encodeChars "%A9".toList
    rw [fromUtf8Lossy, show 0xC3 :: utf8 "%A9" = [0xC3] ++ 0x25 :: utf8 "A9" from rfl, hsplit,
      lossyChars_half _ (by decide), htail]
    rfl
  have hdecoded : urlDecode "�%A9" = "��" := by
    have hbytes : urlDecodeBytes (utf8 "�%A9") = String.utf8EncodeChar '�' ++ [0xA9] := by decide
    rw [urlDecode, hbytes, fromUtf8Lossy, lossyChars_encode_append, lossyChars_half _ (by decide)]
  have hkey : fromUtf8Lossy (utf8 "q") = "q" := fromUtf8Lossy_utf8 "q"
  have hkeyDecoded : urlDecode "q" = "q" := fromUtf8Lossy_utf8 "q"
  rw [postParams_of_form rfl rfl rfl (by decide)]
  change [(urlDecode (fromUtf8Lossy (utf8 "q")),
    urlDecode (fromUtf8Lossy (0xC3 :: utf8 "%A9")))] = _
  rw [hkey, hkeyDecoded, hread, hdecoded]

/-- With another spelling of the content type the injection is passed on undecoded, and
allowed.  With the usual one, a character that is encoded by half is not passed on. -/
theorem form_values_missed : (let ct := "Application/X-WWW-Form-Urlencoded"
     let r := formRequest ct sleepBody
     FullHttpRequest.fromHyper plainUploads (fun _ _ => []) none (formIncoming ct sleepBody) =
        .ok r ∧
      IsForm ct ∧ (utf8 "q", utf8 "sleep%28") ∈ formPairs sleepBody ∧
      passedParams {} r = some [("_body", "q=sleep%28")] ∧
      decodedValue (utf8 "sleep%28") = "sleep(" ∧
      Contains "sleep(" "sleep(" ∧
      (inputVerdict ⟨SqlGuard.lengthHash, {}⟩ (SecurityLayer.fresh {}) () 0 r).2 = .allow) ∧
    (utf8 "q", 0xC3 :: utf8 "%A9") ∈ formPairs halfBody ∧
      passedParams {} (formRequest formType halfBody) = some [("q", "��")] ∧
      decodedValue (0xC3 :: utf8 "%A9") = "é" := by
  have hnone : (formRequest "Application/X-WWW-Form-Urlencoded" sleepBody).postParams = [] :=
    postParams_eq_nil rfl rfl (by decide)
  have hraw : rawBodyStr (formRequest "Application/X-WWW-Form-Urlencoded" sleepBody) =
      "q=sleep%28" := by
    have hbody : (formRequest "Application/X-WWW-Form-Urlencoded" sleepBody).body = sleepBody := rfl
    have htake : sleepBody.take bodyScanLimit = sleepBody := by decide
    rw [rawBodyStr, hnone, hbody, htake, if_pos (by decide), sleepBody, fromUtf8Lossy_utf8]
  have hpassed : passedParams {} (formRequest "Application/X-WWW-Form-Urlencoded" sleepBody) =
      some [("_body", "q=sleep%28")] := by
    rw [passedParams_formRequest, hnone, hraw]
    rfl
  have hhalf : decodedValue (0xC3 :: utf8 "%A9") = "é" := by
    have hbytes : urlDecodeBytes (0xC3 :: utf8 "%A9") = utf8 "é" := by decide
    rw [decodedValue, hbytes, fromUtf8Lossy_utf8]
  have hpassedHalf : passedParams {} (formRequest formType halfBody) = some [("q", "��")] := by
    have hnoRaw : rawBodyStr (formRequest formType halfBody) = "" := by
      simp [rawBodyStr, postParams_halfBody]
    rw [passedParams_formRequest, hnoRaw, postParams_halfBody]
    rfl
  refine ⟨⟨rfl, by decide, by decide, hpassed, decodedValue_sleepBody, by decide, ?_⟩, by decide,
    hpassedHalf, hhalf⟩
  rw [inputVerdict, hpassed]
  decide +kernel

end Turbine.Server
