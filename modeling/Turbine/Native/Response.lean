import Turbine.Wire.Header

/-!
# Turbine.Native.Response

The native response format: `write_native_response` on the worker's side,
`read_native_response_async` on the master's.  Header names and values are
written with a 16-bit length, the headers with a 16-bit count, the body with a
32-bit length; the reader decodes names and values lossily.

* `readNativeResponse_write_iff`: a response reads back, and leaves what
  follows it alone, iff every length and count fits its field.
-/

namespace Turbine.Native

open Base Wire

/-! ## the two sides -/

inductive WorkerResp
  | ok
  | error
  | ready
deriving DecidableEq, Repr

/-- `WorkerResp as u8`. -/
def WorkerResp.code : WorkerResp → Nat
  | .ok => 1
  | .error => 2
  | .ready => 3

/-- What the reader makes of the status byte. -/
def WorkerResp.success : WorkerResp → Bool
  | .ok | .ready => true
  | .error => false

/-- `NativeResponse`. -/
structure NativeResponse where
  success : Bool
  httpStatus : UInt16
  headers : List (String × String)
  body : Bytes
deriving DecidableEq, Repr

/-- `write_native_response`.  Whether the body is copied behind the rest or
written on its own depends on its size; the bytes are the same. -/
def writeNativeResponse (status : WorkerResp) (httpStatus : UInt16)
    (headers : List (String × String)) (body : Bytes) : Bytes :=
  leBytes 1 status.code ++ leBytes 2 httpStatus.toNat ++ leBytes 2 headers.length ++
    headers.flatMap writeHeaderPair ++
    leBytes 4 body.length ++ body

/-- `read_native_response_async`, and `read_native_response_from_fd`, which reads
the same: the response and the bytes after it, or `none` if the bytes end
before the response does. -/
def readNativeResponse (bytes : Bytes) : Option (NativeResponse × Bytes) := do
  let (status, bytes) ← readNat 1 bytes
  let (httpStatus, bytes) ← readNat 2 bytes
  let (headerCount, bytes) ← readNat 2 bytes
  let (headers, bytes) ← readMany readHeaderPair headerCount bytes
  let (bodyLen, bytes) ← readNat 4 bytes
  let (body, bytes) ← splitOff bodyLen bytes
  some (⟨status == 1 || status == 3, .ofNat httpStatus, headers, body⟩, bytes)

/-! ## responses -/

/-- Every length and count fits its field. -/
structure ResponseFits (headers : List (String × String)) (body : Bytes) : Prop where
  count : headers.length < 65536
  texts : ∀ h ∈ headers, HeaderFits h
  body : body.length < 2 ^ 32

/-- **Round trip.**  A response is read back, with what follows it untouched, iff
every length and count fits its field. -/
theorem readNativeResponse_write_iff {status : WorkerResp} {httpStatus : UInt16}
    {headers : List (String × String)} {body rest rest' : Bytes} :
    readNativeResponse (writeNativeResponse status httpStatus headers body ++ rest) =
      some (⟨status.success, httpStatus, headers, body⟩, rest') ↔
        ResponseFits headers body ∧ rest' = rest := by
  have hstatus : (status.code % 256 ^ 1 == 1 || status.code % 256 ^ 1 == 3) =
      status.success := by cases status <;> rfl
  simp only [readNativeResponse, writeNativeResponse, List.append_assoc, Option.bind_eq_bind,
    readNat_leBytes, Option.bind_some, Option.bind_eq_some_iff, Option.some.injEq,
    Prod.mk.injEq, Prod.exists, NativeResponse.mk.injEq, hstatus, uint16_ofNat_mod, true_and]
  constructor
  · intro ⟨headers', bytes, hheaders, len, bytes', hlen, body', bytes'', hbody, ⟨hh, hb⟩, hrest⟩
    subst hh hb hrest
    obtain ⟨hcount, htexts, hbytes⟩ := readMany_headerPairs_iff.1 hheaders
    rw [hbytes, readNat_leBytes, Option.some.injEq, Prod.mk.injEq] at hlen
    obtain ⟨hlen, hbytes'⟩ := hlen
    rw [← hbytes', splitOff_append_iff] at hbody
    have hpos : 0 < 256 ^ 4 := by decide
    have hlt := Nat.mod_lt body'.length hpos
    exact ⟨⟨hcount, htexts, by omega⟩, hbody.2⟩
  · intro ⟨hfits, hrest⟩
    have hlen : body.length % 256 ^ 4 = body.length := Nat.mod_eq_of_lt hfits.body
    exact ⟨headers, _, readMany_headerPairs_iff.2 ⟨hfits.count, hfits.texts, rfl⟩, _, _,
      readNat_leBytes _ _ _, body, rest', splitOff_append_iff.2 ⟨hlen, hrest⟩, ⟨rfl, rfl⟩, rfl⟩

end Turbine.Native
