import Turbine.Engine.Output
import Turbine.Native.Worker

/-!
# Turbine.Native.Transport

The two ways of a native worker's response to the master.  A worker on pipes
writes it with `write_native_response`, for `read_native_response_async` to read;
a worker on channels hands the `NativeResponse` over as it is.  Both take it from
the same buffers of the output capture.

* `transports_agree_iff`: the master gets the same response over the pipe, and
  the whole of it, iff the number of headers and each of their texts fit 16 bits.
-/

namespace Turbine.Native

open Base Wire Engine

/-- What the buffers of the output capture hold at the end of a request whose
script made the given calls; `sapiCode` is PHP's own response code then. -/
def executionOf (rt : Runtime) (calls : List SapiCall) (sapiCode : Int) (succeeded : Bool) :
    Execution :=
  let (body, s) := takeOutput (runCalls rt calls (clearOutputBuffer {}))
  let (headers, s) := takeHeaders s
  let (status, _) := takeResponseCode rt sapiCode s
  ⟨succeeded, status, headers, body⟩

/-- What `worker_event_loop_channel` passes to `response_fn`. -/
def Execution.channelResponse (x : Execution) : NativeResponse :=
  ⟨x.succeeded, x.status, x.headers, x.body⟩

/-- What `worker_event_loop_native` passes to `write_native_response`. -/
def Execution.answer (x : Execution) : Answer :=
  ⟨if x.succeeded then .ok else .error, x.status, x.headers, x.body⟩

/-- Both transports mean the same response. -/
theorem response_answer (x : Execution) : x.answer.response = x.channelResponse := by
  obtain ⟨succeeded, status, headers, body⟩ := x
  cases succeeded <;> rfl

/-- **Transports.**  A body shorter than 2^32 bytes given, reading the bytes of the
response takes all of them and gives what the channel hands over, iff there are fewer
than 65536 headers and the texts of each are shorter than 65536 bytes. -/
theorem transports_agree_iff (x : Execution) (hbody : x.body.length < 2 ^ 32) :
    readNativeResponse x.answer.frame = some (x.channelResponse, []) ↔
      x.headers.length < 65536 ∧ ∀ h ∈ x.headers, HeaderFits h := by
  have hwrite : readNativeResponse (x.answer.frame ++ []) = some (x.answer.response, []) ↔
      ResponseFits x.headers x.body ∧ [] = [] := readNativeResponse_write_iff
  rw [List.append_nil, response_answer] at hwrite
  rw [hwrite]
  constructor
  · rintro ⟨hfits, -⟩
    exact ⟨hfits.count, hfits.texts⟩
  · rintro ⟨hcount, htexts⟩
    exact ⟨⟨hcount, htexts, hbody⟩, rfl⟩

theorem transports_agree_iff_redirect :
    readNativeResponse (Execution.answer ⟨false, 302, [("Location", "/")], [111, 107]⟩).frame =
      some (⟨false, 302, [("Location", "/")], [111, 107]⟩, []) :=
  (transports_agree_iff ⟨false, 302, [("Location", "/")], [111, 107]⟩ (by decide)).2
    ⟨by decide, by decide⟩

/-! ## a count that wraps -/

/-- A script that adds one header line any number of times and writes nothing. -/
def headerLines (n : Nat) : Execution :=
  executionOf ⟨true, id⟩ (List.replicate n (.header 1 (some (utf8 "X-Tag: 1")))) 200 true

theorem headerLines_eq (n : Nat) :
    headerLines n = ⟨true, 200, List.replicate n ("X-Tag", "1"), []⟩ := by
  rw [headerLines, executionOf, runCalls_headerLines]
  rfl

/-- If the count of the headers wraps to zero, the first header is taken for the length of
the body, and there are not that many bytes. -/
theorem readNativeResponse_wrapped {hs : List (String × String)}
    (hcount : (hs.length + 1) % 65536 = 0)
    (hshort : (hs.flatMap writeHeaderPair).length < 760000000) :
    readNativeResponse (writeNativeResponse .ok 200 (("X-Tag", "1") :: hs) []) = none := by
  have hhead : writeHeaderPair ("X-Tag", "1") = leBytes 4 760741893 ++ [84, 97, 103, 1, 0, 49] := by
    decide
  have hmod : (("X-Tag", "1") :: hs).length % 256 ^ 2 = 0 := hcount
  have hsplit : ∀ rest : Bytes, rest.length < 760741893 →
      splitOff (760741893 % 256 ^ 4) rest = none := by
    intro rest hrest
    rw [splitOff, if_neg]
    omega
  rw [writeNativeResponse, readNativeResponse, List.flatMap_cons, hhead]
  simp only [List.append_assoc, Option.bind_eq_bind, readNat_leBytes_bind, hmod, readMany,
    Option.bind_some]
  rw [hsplit, Option.bind_none]
  simp only [List.length_append, List.length_cons, List.length_nil, length_leBytes]
  omega

/-- A script may add 65536 headers; over a channel they arrive, over a pipe the reader
waits for a body that does not come. -/
theorem many_headers_lost :
    (headerLines 65536).headers = List.replicate 65536 ("X-Tag", "1") ∧
      (headerLines 65536).body = [] ∧
      (headerLines 65536).channelResponse =
        ⟨true, 200, List.replicate 65536 ("X-Tag", "1"), []⟩ ∧
      readNativeResponse (headerLines 65536).answer.frame = none := by
  have hlen : (List.replicate 65535 ("X-Tag", "1")).length = 65535 := List.length_replicate
  have hbytes :
      ((List.replicate 65535 ("X-Tag", "1")).flatMap writeHeaderPair).length = 655350 := by
    have hten : (writeHeaderPair ("X-Tag", "1")).length = 10 := by decide
    rw [List.length_flatMap, List.map_replicate, List.sum_replicate_nat, hten]
  rw [headerLines_eq]
  refine ⟨rfl, rfl, rfl, ?_⟩
  have hsucc : List.replicate 65536 ("X-Tag", "1") =
      ("X-Tag", "1") :: List.replicate 65535 ("X-Tag", "1") := List.replicate_succ
  rw [hsucc]
  generalize List.replicate 65535 ("X-Tag", "1") = hs at hlen hbytes
  exact readNativeResponse_wrapped (by rw [hlen]) (by omega)

end Turbine.Native
