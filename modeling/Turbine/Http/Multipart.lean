import Turbine.Http.Form

/-!
# Turbine.Http.Multipart

`parse_multipart`: what becomes of each part of a `multipart/form-data` body.
The parts are what the `multer` crate reads from the body, in order, up to the
first error.
-/

namespace Turbine.Http

open Base

/-- A part as `multer` hands it out.  `data` is `none` if reading its bytes fails. -/
structure Field where
  name : Option String
  fileName : Option String
  contentType : Option String
  data : Option Bytes
deriving DecidableEq, Repr

/-- `UploadSecurityConfig`.  `lower` is `str::to_lowercase`, whose Unicode tables are
not modelled. -/
structure UploadSecurityConfig where
  blockedExtensions : List String
  scanContent : Bool
  lower : String → String

/-- `PHP_SIGNATURES`. -/
def phpSignatures : List Bytes :=
  ["<?php", "<?=", "<script language=\"php\">", "<script language='php'>"].map utf8

/-- `u8::to_ascii_lowercase`. -/
def asciiLower (b : UInt8) : UInt8 := if 0x41 ≤ b ∧ b ≤ 0x5A then b + 32 else b

/-- The loop over the blocked extensions.  An extension also counts when it stands
before another one, as in `shell.php.jpg`. -/
def extensionBlocked (sec : UploadSecurityConfig) (fname : String) : Bool :=
  sec.blockedExtensions.any fun ext =>
    endsWith (sec.lower fname) (sec.lower ext) ||
      containsStr (sec.lower fname) (sec.lower ext ++ ".")

/-- The scan of the content. -/
def phpDetected (data : Bytes) : Bool :=
  phpSignatures.any fun sig => occursIn (sig.map asciiLower) (data.map asciiLower)

/-- The part is a named file that the upload hardening refuses. -/
def Field.rejected (sec : UploadSecurityConfig) (f : Field) : Bool :=
  match f.fileName, f.data with
  | some fname, some data =>
    !fname.isEmpty && (extensionBlocked sec fname || (sec.scanContent && phpDetected data))
  | _, _ => false

/-- A file that is to be written. -/
structure Upload where
  fieldName : String
  fileName : String
  contentType : String
  data : Bytes
deriving DecidableEq, Repr

inductive Disposition
  | skip
  | text (name value : String)
  | file (u : Upload)
deriving DecidableEq, Repr

/-- What the loop body decides about a part. -/
def Field.disposition (sec : UploadSecurityConfig) (f : Field) : Disposition :=
  match f.data with
  | none => .skip
  | some data =>
    match f.fileName with
    | some fname =>
      if fname.isEmpty then .skip
      else if extensionBlocked sec fname then .skip
      else if sec.scanContent && phpDetected data then .skip
      else
        let ct := f.contentType.getD ""
        .file
          { fieldName := f.name.getD ""
            fileName := fname
            contentType := if ct.isEmpty then "application/octet-stream" else ct
            data := data }
    | none => .text (f.name.getD "") (fromUtf8Lossy data)

/-- `UploadedFile`. -/
structure UploadedFile extends Upload where
  tmpPath : String
deriving DecidableEq, Repr

/-- The name of the temp file for the upload after `n` accepted ones. -/
def tmpPath (dir : String) (pid n : Nat) : String :=
  dir ++ "/turbine_upload_" ++ toString pid ++ "_" ++ toString n

/-- Different positions have different names. -/
theorem tmpPath_inj {dir : String} {pid m n : Nat} (h : tmpPath dir pid m = tmpPath dir pid n) :
    m = n := by
  have hdigits : Nat.toDigits 10 m = Nat.toDigits 10 n :=
    String.ofList_injective ((String.append_right_inj _).1 h)
  calc
    m = Nat.ofDigitChars 10 (Nat.toDigits 10 m) 0 :=
      (Nat.ofDigitChars_toDigits (by decide) (by decide)).symm
    _ = Nat.ofDigitChars 10 (Nat.toDigits 10 n) 0 := by rw [hdigits]
    _ = n := Nat.ofDigitChars_toDigits (by decide) (by decide)

theorem tmpPath_ne_empty (dir : String) (pid n : Nat) : (tmpPath dir pid n).isEmpty = false := by
  rw [← Bool.not_eq_true, String.isEmpty_iff]
  intro h
  have hchars := congrArg String.toList h
  simp [tmpPath] at hchars

/-- The server's settings that the parser reads. -/
structure UploadConfig where
  security : UploadSecurityConfig
  tmpDir : String
  pid : Nat

/-- What the parser has collected. -/
structure Collected where
  files : List UploadedFile
  texts : List (String × String)
deriving DecidableEq, Repr

/-- The entry made for the next accepted file. -/
def UploadConfig.entryFor (cfg : UploadConfig) (c : Collected) (u : Upload) : UploadedFile :=
  { u with tmpPath := tmpPath cfg.tmpDir cfg.pid c.files.length }

/-- One pass of the loop: what is collected then, and the file that was written.
Writing a file succeeds. -/
def takeField (cfg : UploadConfig) (c : Collected) (f : Field) : Collected × Option UploadedFile :=
  match f.disposition cfg.security with
  | .skip => (c, none)
  | .text name value => ({ c with texts := c.texts ++ [(name, value)] }, none)
  | .file u =>
    ({ c with files := c.files ++ [cfg.entryFor c u] }, some (cfg.entryFor c u))

/-- `parse_multipart`, on the parts. -/
def parseMultipart (cfg : UploadConfig) (fields : List Field) : Collected :=
  fields.foldl (fun c f => (takeField cfg c f).1) ⟨[], []⟩

/-! ## rejected parts -/

variable {cfg : UploadConfig} {c : Collected} {f : Field}

/-- A rejected part is dropped. -/
theorem disposition_of_rejected {sec : UploadSecurityConfig} (h : f.rejected sec = true) :
    f.disposition sec = .skip := by
  unfold Field.rejected at h
  unfold Field.disposition
  cases hdata : f.data with
  | none => rfl
  | some data =>
    cases hname : f.fileName with
    | none => simp [hname] at h
    | some fname =>
      simp only [hname, hdata, Bool.and_eq_true, Bool.or_eq_true, Bool.not_eq_true'] at h
      obtain ⟨hne, hext | ⟨hscan, hphp⟩⟩ := h
      · simp [hne, hext]
      · simp [hne, hscan, hphp]

theorem rejected_congr {sec : UploadSecurityConfig} {f g : Field} (hname : f.fileName = g.fileName)
    (hdata : f.data = g.data) : f.rejected sec = g.rejected sec := by
  rw [Field.rejected, Field.rejected, hname, hdata]

/-- A file that is written has the name and the data of its part. -/
theorem disposition_eq_file {sec : UploadSecurityConfig} {u : Upload}
    (h : f.disposition sec = .file u) : f.fileName = some u.fileName ∧ f.data = some u.data := by
  unfold Field.disposition at h
  cases hdata : f.data with
  | none => simp [hdata] at h
  | some data =>
    cases hname : f.fileName with
    | none => simp [hdata, hname] at h
    | some fname =>
      simp only [hdata, hname] at h
      split_ifs at h
      all_goals
        cases h
        exact ⟨rfl, rfl⟩

/-- The entry comes from a part that was not rejected. -/
def Accepted (sec : UploadSecurityConfig) (fields : List Field) (e : UploadedFile) : Prop :=
  ∃ f ∈ fields, f.rejected sec = false ∧ f.fileName = some e.fileName ∧ f.data = some e.data

/-- **Step lemma.**  A part adds at most the entry of a file that is not rejected. -/
theorem accepted_takeField {fields : List Field}
    (hc : ∀ e ∈ c.files, Accepted cfg.security fields e) (hf : f ∈ fields) :
    ∀ e ∈ (takeField cfg c f).1.files, Accepted cfg.security fields e := by
  intro e he
  unfold takeField at he
  cases hd : f.disposition cfg.security with
  | skip => exact hc e (by simpa [hd] using he)
  | text name value => exact hc e (by simpa [hd] using he)
  | file u =>
    simp only [hd, List.mem_append, List.mem_singleton] at he
    rcases he with he | rfl
    · exact hc e he
    · obtain ⟨hname, hdata⟩ := disposition_eq_file hd
      refine ⟨f, hf, ?_, hname, hdata⟩
      by_contra hrejected
      rw [Bool.not_eq_false] at hrejected
      rw [disposition_of_rejected hrejected] at hd
      cases hd

/-- **Run lemma.**  Every entry of the file list comes from a part that was not
rejected. -/
theorem accepted_parseMultipart {fields : List Field} :
    ∀ e ∈ (parseMultipart cfg fields).files, Accepted cfg.security fields e := by
  have hrun : ∀ (rest : List Field) (c : Collected), (∀ f ∈ rest, f ∈ fields) →
      (∀ e ∈ c.files, Accepted cfg.security fields e) →
      ∀ e ∈ (rest.foldl (fun c f => (takeField cfg c f).1) c).files,
        Accepted cfg.security fields e := by
    intro rest
    induction rest with
    | nil => exact fun c _ hc => hc
    | cons f rest ih =>
      intro c hmem hc
      exact ih _ (fun g hg => hmem g (List.mem_cons_of_mem f hg))
        (accepted_takeField hc (hmem f List.mem_cons_self))
  exact hrun fields ⟨[], []⟩ (fun f hf => hf) (fun e he => absurd he List.not_mem_nil)

/-- A rejected part is not in the file list. -/
theorem not_mem_files_of_rejected {fields : List Field} (h : f.rejected cfg.security = true) :
    ∀ e ∈ (parseMultipart cfg fields).files,
      ¬ (f.fileName = some e.fileName ∧ f.data = some e.data) := by
  rintro e he ⟨hname, hdata⟩
  obtain ⟨g, -, hg, hgname, hgdata⟩ := accepted_parseMultipart e he
  have hsame : f.rejected cfg.security = g.rejected cfg.security :=
    rejected_congr (hname.trans hgname.symm) (hdata.trans hgdata.symm)
  rw [h, hg] at hsame
  cases hsame

end Turbine.Http
