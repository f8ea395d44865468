import Repercep.Metering.Suppression
set_option autoImplicit false

/-!
# Metering: the proxied POST

The model of `LlmProxy._proxy_post_stream` in `serving/llm_proxy.py`, from the moment
the upstream request is sent.  Every await is an outcome of the script: it returns,
or it raises (an upstream failure, a cancellation, a closed generator).  The latency
of a record is a wall-clock reading and is left out.

The record of a streamed call is emitted in a `finally` block, behind one more await
and one more `meter.finish()`, and only if the response generator was ever started.

The response is an `httpx.Response`.  It closes itself when its body has been read to
the end, inside `aread()` or `aiter_raw()`; it counts as closed from the moment that
close begins, whether or not the close then raises; and closing it again awaits nothing.
-/

namespace Repercep.Metering

/-- What an await, or the meter, raises. -/
inductive Raised where
  /-- `httpx.RequestError` and its subclasses -/
  | requestError
  /-- `asyncio.CancelledError` -/
  | cancelled
  /-- thrown into a generator that is closed at a `yield` -/
  | generatorExit
  | httpException (status : Nat)
  | meter (e : LoadError)
  | other (kind : String)
  deriving DecidableEq, Repr

/-- How an await ends. -/
abbrev Await (α : Type) : Type := Except Raised α

/-- What the proxy learned from the request body. -/
structure RequestPlan where
  model : String
  streaming : Bool
  injectedUsage : Bool
  deriving DecidableEq, Repr

/-- What one proxied call cost. -/
structure CallRecord where
  route : String
  model : String
  promptTokens : Int
  completionTokens : Int
  exact : Bool
  status : Nat
  deriving DecidableEq, Repr

/-- One turn of `async for raw in upstream.aiter_raw()`. -/
inductive Turn where
  /-- a chunk arrives; `resumed` is how a `yield` of its output ends -/
  | chunk (raw : Bytes) (resumed : Await Unit)
  /-- the iteration raises: the upstream drops, or the task is cancelled -/
  | raise (e : Raised)

/-- The outcomes of the awaits of one POST.  The turns end with the normal end of the
upstream, unless one of them raises before. -/
structure Script where
  /-- `await self._client.send(...)`: the status of the response -/
  send : Await Nat
  /-- `await upstream.aread()` of an error response, its close included -/
  aread : Await Bytes
  /-- the response generator is started -/
  started : Bool
  turns : List Turn
  /-- how the close at the end of `aiter_raw()` ends -/
  ended : Await Unit
  /-- how the `yield` of the tail ends -/
  tailResumed : Await Unit
  /-- how the close of a response that is still open ends -/
  close : Await Unit

/-- How the POST ends, what its client receives and what the sink is handed. -/
structure Reply where
  outcome : Except Raised Unit
  forwarded : List Bytes
  records : List CallRecord

/-- `_emit`: hand a record to the sink, if there is one.  What the sink raises is
caught. -/
def emit (hasSink : Bool) (record : CallRecord) : List CallRecord :=
  if hasSink then [record] else []

/-- `await upstream.aclose()`. -/
def aclose (isClosed : Bool) (close : Await Unit) : Await Unit :=
  if isClosed then .ok () else close

@[simp] theorem aclose_ok (isClosed : Bool) : aclose isClosed (.ok ()) = .ok () := ite_self _

/-- How the `try` block of `metered` ends, and what it leaves. -/
structure TryBlock where
  outcome : Except Raised Unit
  yielded : List Bytes
  meter : ResponseMeter
  /-- `upstream.is_closed` -/
  isClosed : Bool

/-- Put an earlier output before those of a block. -/
def TryBlock.after (out : Bytes) (block : TryBlock) : TryBlock :=
  { block with yielded := out :: block.yielded }

@[simp] theorem TryBlock.after_outcome (out : Bytes) (block : TryBlock) :
    (block.after out).outcome = block.outcome := rfl
@[simp] theorem TryBlock.after_meter (out : Bytes) (block : TryBlock) :
    (block.after out).meter = block.meter := rfl
@[simp] theorem TryBlock.after_isClosed (out : Bytes) (block : TryBlock) :
    (block.after out).isClosed = block.isClosed := rfl

/-- The `try` block of `metered`. -/
def meteredBody (loads : Loads) (ended tailResumed : Await Unit) (m : ResponseMeter) :
    List Turn → TryBlock
  | [] =>
      match ended with
      | .error e => ⟨.error e, [], m, true⟩
      | .ok _ =>
          match m.finish loads with
          | (.error e, m') => ⟨.error (.meter e), [], m', true⟩
          | (.ok [], m') => ⟨.ok (), [], m', true⟩
          | (.ok tail, m') => ⟨tailResumed, [tail], m', true⟩
  | .raise e :: _ => ⟨.error e, [], m, false⟩
  | .chunk raw resumed :: turns =>
      match m.feed loads raw with
      | (.error e, m') => ⟨.error (.meter e), [], m', false⟩
      | (.ok [], m') => meteredBody loads ended tailResumed m' turns
      | (.ok out, m') =>
          match resumed with
          | .error e => ⟨.error e, [out], m', false⟩
          | .ok _ => (meteredBody loads ended tailResumed m' turns).after out

/-- The `finally` block of `metered`: close the upstream, finish the meter once more,
emit.  What it raises replaces how the `try` block ended. -/
def meteredFinally (loads : Loads) (hasSink : Bool) (path : String) (plan : RequestPlan)
    (status : Nat) (close : Await Unit) (block : TryBlock) :
    Except Raised Unit × List CallRecord :=
  match aclose block.isClosed close with
  | .error e => (.error e, [])
  | .ok _ =>
      match block.meter.finish loads with
      | (.error e, _) => (.error (.meter e), [])
      | (.ok _, m') =>
          (block.outcome, emit hasSink
            { route := path
              model := plan.model
              promptTokens := m'.usage.promptTokens
              completionTokens := m'.usage.completionTokens
              exact := m'.exact
              status := status })

/-- A record without tokens, for a call that never produced any. -/
def emptyRecord (path : String) (plan : RequestPlan) (status : Nat) : CallRecord where
  route := path
  model := plan.model
  promptTokens := 0
  completionTokens := 0
  exact := true
  status := status

/-- `_UPSTREAM_UNREACHABLE`. -/
def upstreamUnreachable : Nat := 502

/-- `_proxy_post_stream`, from the upstream request on, together with the response
generator it returns. -/
def proxyPostStream (loads : Loads) (hasSink : Bool) (path : String) (plan : RequestPlan)
    (script : Script) : Reply :=
  match script.send with
  | .error .requestError =>
      ⟨.error (.httpException upstreamUnreachable), [],
        emit hasSink (emptyRecord path plan upstreamUnreachable)⟩
  | .error e => ⟨.error e, [], []⟩
  | .ok status =>
      if 400 ≤ status then
        match script.aread with
        | .error e => ⟨.error e, [], []⟩
        | .ok _ =>
            -- read to its end, so closed
            match aclose true script.close with
            | .error e => ⟨.error e, [], []⟩
            | .ok _ =>
                ⟨.error (.httpException status), [],
                  emit hasSink (emptyRecord path plan status)⟩
      else if script.started then
        let block := meteredBody loads script.ended script.tailResumed
          (.new plan.streaming plan.injectedUsage) script.turns
        let final := meteredFinally loads hasSink path plan status script.close block
        ⟨final.1, block.yielded, final.2⟩
      else ⟨.ok (), [], []⟩

/-! ## A body that is not streamed -/

/-- `json.loads` of a non-streamed body fails with an error the meter lets through. -/
def bodyRaises (loads : Loads) (body : Bytes) : Bool :=
  match loads body with
  | .ok _ => false
  | .error e => !e.caught

/-- `extract_usage` raises exactly on such a body. -/
theorem extractUsage_spec (loads : Loads) (body : Bytes) :
    (bodyRaises loads body = true ∧ ∃ e, extractUsage loads body = .error e) ∨
      (bodyRaises loads body = false ∧ ∃ found, extractUsage loads body = .ok found) := by
  unfold bodyRaises extractUsage
  cases loads body with
  | ok value => exact Or.inr ⟨rfl, usageFromObj value, rfl⟩
  | error e =>
      cases hcaught : e.caught with
      | true => exact Or.inr ⟨by simp [hcaught], none, by simp [hcaught]⟩
      | false => exact Or.inl ⟨by simp [hcaught], e, by simp [hcaught]⟩

end Repercep.Metering
