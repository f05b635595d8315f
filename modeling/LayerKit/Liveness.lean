import LayerKit.Concurrent
import LayerKit.Fairness

/-!
# Every Request Is Answered

Take a handler whose methods end, whatever the store answers: each is a program over the store
of finitely many operations, through the scope of the claims only and without a memory
(`StoreHandler`). Then under a schedule that moves every request again and again, each request
is answered after finitely many moves, however many others there are and whatever they do in
between.

The **envelope** of a response is what carries it to the right caller: the status, and the
version and the id of the reply. It depends on the request alone: replies are not mixed up
under any schedule.

## Main results

* `requests_answered`: under a fair schedule every request is answered, in its own envelope.
-/

open Json

namespace LayerKit

variable {T : Type} {P : Primitives} {C : Codec} {S : ServeState}

/-- The **envelope** of a response: its status, and the version and the id of its reply. -/
def envelope (resp : Response) : StatusCode × Option Value × Option Value :=
  (resp.status, resp.body.bind (·.get "jsonrpc"), resp.body.bind (·.get "id"))

/-- The envelope of a successful reply does not depend on the result. -/
theorem envelope_reply (id result : Value) :
    envelope (httpResponse (some (reply id result))) =
      (200, some (.string "2.0"), some id) := by
  rw [httpResponse, envelope, Option.bind_some, Option.bind_some, reply, Value.get_obj,
    Value.get_obj]
  rfl

/-- **The envelope of a frame** depends on the frame alone. -/
theorem rpcThread_returns (h : StoreHandler T) (tool version : String) (claims : Claims)
    (req : Value) :
    ∃ e, (rpcThread C h tool version claims req).Returns fun resp =>
      envelope (httpResponse resp) = e := by
  unfold rpcThread
  split
  · exact ⟨_, rfl⟩
  · next id _ =>
      dsimp only
      split
      · exact ⟨_, rfl⟩
      · exact ⟨_, rfl⟩
      · exact ⟨_, rfl⟩
      · split
        · exact ⟨_, rfl⟩
        · exact ⟨_, .map (.of_forall (fun outcome => envelope_reply id (toolResult C outcome)) _)⟩
      · exact ⟨_, rfl⟩

/-- **The envelope of a response** depends on the request alone. -/
theorem mcpThread_returns (h : StoreHandler T) (r : Request) :
    ∃ e, (mcpThread P C S h r).Returns fun resp => envelope resp = e := by
  unfold mcpThread
  split
  · exact ⟨_, rfl⟩
  · split
    · exact ⟨_, rfl⟩
    · next claims _ =>
        split
        · exact ⟨_, rfl⟩
        · next req _ =>
            split
            · exact ⟨_, rfl⟩
            · obtain ⟨e, he⟩ := rpcThread_returns (C := C) h S.tool S.version claims req
              exact ⟨e, he.map⟩

/-- **Every request is answered.** Let the methods of a handler end, touch the store through the
scope of their claims only and keep no memory. Under every schedule that moves each request
again and again, each of them ends after finitely many moves and stays as it ended, with a
response in the envelope in which the atomic server answers it, whatever table that finds: the
status and the id of its reply do not depend on the schedule, on the other requests or on the
table. -/
theorem requests_answered {κ : Type} [DecidableEq κ] (h : StoreHandler T) (rs : κ → Request)
    (t : Objects) (f : ℕ → κ) (hf : Fair f) (k : κ) :
    ∃ n resp,
      (∀ n', n ≤ n' → (serveConcurrently P C S h rs t (moves f n')).1.1 k = .done resp) ∧
        ∀ t', envelope resp = envelope (mcp P C S h.handler (rs k) t').result := by
  obtain ⟨e, he⟩ := mcpThread_returns (P := P) (C := C) (S := S) h (rs k)
  obtain ⟨n, resp, hresp, hdone⟩ := eventually_done (m := storeMachine T)
    (fun k => mcpThread P C S h (rs k), t) (hf k) he
  refine ⟨n, resp, hdone, fun t' => ?_⟩
  -- the atomic server ends the same thread, uninterrupted
  have hatomic := he.finish (storeMachine T) t'
  rw [mcpThread_finish] at hatomic
  exact hresp.trans hatomic.symm

/-- A schedule that moves two requests in turn. -/
theorem fair_alternate : Fair fun n : ℕ => decide (n % 2 = 0) := by
  intro k n
  cases k with
  | false => exact ⟨2 * n + 1, by omega, decide_eq_false (by omega)⟩
  | true => exact ⟨2 * n, by omega, decide_eq_true (by omega)⟩

/-- The two requests, moved in turns, are both answered; this is the first one. -/
theorem requests_answered_pair :
    ∃ n resp, (∀ n', n ≤ n' →
        (serveConcurrently pairPrimitives sampleCodec sampleState pairHandler pairRequest
          Sql.Table.empty (moves (fun n : ℕ => decide (n % 2 = 0)) n')).1.1 true = .done resp) ∧
      ∀ t', envelope resp = envelope (mcp pairPrimitives sampleCodec sampleState
        pairHandler.handler (pairRequest true) t').result :=
  requests_answered pairHandler pairRequest Sql.Table.empty _ fair_alternate true

end LayerKit
