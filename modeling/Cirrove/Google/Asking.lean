import Cirrove.Google.Uploads

/-!
# What a call asks

A call that only reads asks for nothing that changes the drive (`Reads`), whatever it is answered.
-/

namespace Cirrove.Google

open Cirrove.Library
open Cirrove.Upload

/-- Asked for this, the drive changes nothing. -/
def Reads : Ask → Prop
  | .send _ => False
  | .generateIds => False
  | _ => True

/-- What is asked before anything is created. -/
def Reserves : Ask → Prop
  | .permit => True
  | .generateIds => True
  | _ => False

section Ends

variable {α : Type} {a : α} {e : UploadError}

theorem ends_ofExcept {x : Except UploadError α}
    (h : (Exchange.ofExcept x : Exchange α).run.Ends (.ok a)) : x = .ok a := Dialogue.ends_done h

theorem not_ends_throw (h : (throw e : Exchange α).run.Ends (.ok a)) : False := by
  cases Dialogue.ends_done h

theorem ends_return {b : α} (h : (pure b : Exchange α).run.Ends (.ok a)) : b = a :=
  Except.ok.inj (Dialogue.ends_done h)

theorem ends_refuseIf {c : Prop} [Decidable c] {u : Unit}
    (h : (Exchange.refuseIf c e).run.Ends (.ok u)) : ¬ c := by
  unfold Exchange.refuseIf at h
  split at h
  · cases not_ends_throw h
  · next hc => exact hc

/-- A call that ends well was not cut off. -/
theorem ends_uploadCall {call : Exchange α}
    (h : (GoogleWriter.uploadCall call).Ends (.ok a)) : call.run.Ends (.ok a) := by
  rcases Dialogue.ends_cut h with h | h
  · cases h
  · obtain ⟨_, -, h⟩ := Dialogue.ends_ok h
    obtain ⟨_, -, h⟩ := Dialogue.ends_ok h
    exact h

end Ends

theorem tries_refuseIf {S : Type} {G : Game Ask Answer S} {s : S} {c : Prop} [Decidable c]
    {e : UploadError} {fails : UploadError → S → Prop} (h : c → fails e s) :
    G.Tries (fun _ t => ¬c ∧ t = s) fails (Exchange.refuseIf c e) s := by
  unfold Exchange.refuseIf
  split
  · next hc => exact Game.tries_throw (h hc)
  · next hc => exact Game.tries_pure ⟨hc, rfl⟩

section Only

variable {g : GoogleWriter} {P : Ask → Prop} {α : Type}

theorem only_ask {r : Ask} (h : P r) : (Exchange.ask r).run.Only P :=
  Dialogue.only_lift (Dialogue.only_question h)

theorem only_ofExcept {x : Except UploadError α} : (Exchange.ofExcept x).run.Only P := trivial

theorem only_ofProvider {x : Except ProviderError α} : (Exchange.ofProvider x).run.Only P := trivial

theorem only_throw {e : UploadError} : (throw e : Exchange α).run.Only P := trivial

theorem only_return {a : α} : (pure a : Exchange α).run.Only P := trivial

theorem only_refuseIf {c : Prop} [Decidable c] {e : UploadError} :
    (Exchange.refuseIf c e).run.Only P := by
  unfold Exchange.refuseIf
  split
  · exact only_throw
  · exact only_return

theorem readFile_only {id : String} : (g.readFile id).run.Only Reads := by
  unfold GoogleWriter.readFile
  refine Dialogue.only_tries only_ofProvider fun _ => ?_
  refine Dialogue.only_tries (only_ask trivial) fun file => ?_
  refine Dialogue.only_tries only_ofProvider fun f => ?_
  refine Dialogue.only_tries only_refuseIf fun _ => ?_
  exact Dialogue.only_tries only_refuseIf fun _ => only_return

theorem settle_only {scope : Scope} {initial : Node} {looks : Nat} {previous : Option Node} :
    (g.settle scope initial looks previous).run.Only Reads := by
  induction looks generalizing previous with
  | zero => exact only_throw
  | succ looks ih =>
    unfold GoogleWriter.settle
    refine Dialogue.only_tries (only_ask trivial) fun cancelled => ?_
    refine Dialogue.only_tries only_refuseIf fun _ => ?_
    refine Dialogue.only_tries readFile_only fun file => ?_
    refine Dialogue.only_tries only_ofProvider fun current => ?_
    refine Dialogue.only_tries only_refuseIf fun _ => ?_
    split
    · exact only_return
    · exact ih

theorem settleWrittenNode_only {scope : Scope} {initial : Node} :
    (g.settleWrittenNode scope initial).run.Only Reads := by
  unfold GoogleWriter.settleWrittenNode
  split
  · exact only_return
  · exact settle_only

theorem readRange_only {scope : Scope} {node : Node} {offset length : Nat} :
    (g.readRange scope node offset length).run.Only Reads := by
  unfold GoogleWriter.readRange
  refine Dialogue.only_tries only_ofProvider fun _ => ?_
  refine Dialogue.only_tries only_refuseIf fun _ => ?_
  refine Dialogue.only_tries only_ofProvider fun _ => ?_
  refine Dialogue.only_tries (only_ask trivial) fun _ => ?_
  refine Dialogue.only_tries only_ofProvider fun _ => ?_
  refine Dialogue.only_tries readFile_only fun before => ?_
  refine Dialogue.only_tries only_ofProvider fun current => ?_
  refine Dialogue.only_tries only_refuseIf fun _ => ?_
  split
  · exact only_return
  split
  · exact only_return
  · refine Dialogue.only_tries (only_ask trivial) fun _ => ?_
    refine Dialogue.only_tries only_ofProvider fun response => ?_
    refine Dialogue.only_tries only_refuseIf fun _ => ?_
    refine Dialogue.only_tries only_refuseIf fun _ => ?_
    refine Dialogue.only_tries only_refuseIf fun _ => ?_
    refine Dialogue.only_tries only_ofProvider fun bytes => ?_
    refine Dialogue.only_tries only_refuseIf fun _ => ?_
    refine Dialogue.only_tries readFile_only fun file => ?_
    refine Dialogue.only_tries only_ofProvider fun after => ?_
    exact Dialogue.only_tries only_refuseIf fun _ => only_return

theorem readContents_only {scope : Scope} {node : Node} {chunk : Nat} {short : Bool}
    {reads offset : Nat} {read : Bytes} :
    (g.readContents scope node chunk short reads offset read).run.Only Reads := by
  induction reads generalizing offset read with
  | zero => exact only_return
  | succ reads ih =>
    unfold GoogleWriter.readContents
    split
    · exact only_return
    · refine Dialogue.only_tries readRange_only fun bytes => ?_
      exact Dialogue.only_tries only_refuseIf fun _ => ih

/-- The receipt of a create is found by reading. -/
theorem receipt_only {request : UploadRequest} {parent name : String}
    (hcreate : request.intent = .create parent name) {id : String} {response : Response} :
    (g.receipt request id response).run.Only Reads := by
  unfold GoogleWriter.receipt
  have hunder : GoogleWriter.underVersion request = false := by
    rw [GoogleWriter.underVersion, hcreate]
  rw [hunder]
  refine Dialogue.only_tries only_ofExcept fun file => ?_
  refine Dialogue.only_tries only_ofExcept fun node => ?_
  exact Dialogue.only_tries only_refuseIf fun _ => settleWrittenNode_only

theorem generatedId_only : GoogleWriter.generatedId.run.Only Reserves := by
  unfold GoogleWriter.generatedId
  refine Dialogue.only_tries (only_ask trivial) fun ids => ?_
  refine Dialogue.only_tries only_ofProvider fun generated => ?_
  split
  · refine Dialogue.only_tries only_refuseIf fun _ => ?_
    exact Dialogue.only_tries only_ofProvider fun _ => only_return
  · exact only_throw

end Only

end Cirrove.Google
