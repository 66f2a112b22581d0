import TftpReceiver.Transfer

/-! The life of a sink in the hands of a transfer: it is filled block by block, and then
either published or dropped. -/

namespace TftpReceiver

namespace Sink

variable {σ : Type} [Sink σ]

/-- What becomes of a payload that is offered to a sink. -/
inductive Stores (sink : σ) : Bytes → Except Condition Unit → σ → Prop
  | empty : Stores sink [] (.ok ()) sink
  | full {payload sink'} (hp : payload ≠ [])
      (hw : Sink.write sink payload = (.ok payload.length, sink')) :
      Stores sink payload (.ok ()) sink'
  | short {payload taken sink'} (hp : payload ≠ []) (hn : taken ≠ payload.length)
      (hw : Sink.write sink payload = (.ok taken, sink')) :
      Stores sink payload (.error (.protocol .diskFull)) sink'
  | failed {payload error sink'} (hp : payload ≠ [])
      (hw : Sink.write sink payload = (.error error, sink')) :
      Stores sink payload (.error (.ofHostError error)) sink'

inductive Commits (sink : σ) : Except HostError Unit → σ → Prop
  | unflushed {error sink'} (hf : Sink.flush sink = (.error error, sink')) :
      Commits sink (.error error) sink'
  | flushed {answer flushed sink'} (hf : Sink.flush sink = (.ok (), flushed))
      (hp : Sink.publish flushed = (answer, sink')) : Commits sink answer sink'

/-- A sink that took the payloads, each in full and one after another. -/
inductive Filled (fresh : σ) : List Bytes → σ → Prop
  | fresh : Filled fresh [] fresh
  | stored {payloads payload sink sink'} (h : Filled fresh payloads sink)
      (hs : Stores sink payload (.ok ()) sink') : Filled fresh (payloads ++ [payload]) sink'

inductive Published (fresh : σ) (payloads : List Bytes) : σ → Prop
  | published {sink sink'} (h : Filled fresh payloads sink) (hc : Commits sink (.ok ()) sink') :
      Published fresh payloads sink'

/-- A sink that was told to discard what it has, when it was filled or when it failed. -/
inductive Dropped (fresh : σ) (payloads : List Bytes) : σ → Prop
  | filled {sink} (h : Filled fresh payloads sink) :
      Dropped fresh payloads (Sink.discard sink).2
  | unstored {sink payload condition sink'} (h : Filled fresh payloads sink)
      (hs : Stores sink payload (.error condition) sink') :
      Dropped fresh payloads (Sink.discard sink').2
  | uncommitted {sink error sink'} (h : Filled fresh payloads sink)
      (hc : Commits sink (.error error) sink') : Dropped fresh payloads (Sink.discard sink').2

/-- A view of what a sink holds: writing adds what is taken, and neither flushing nor
publishing changes it. -/
structure Contents (σ : Type) [Sink σ] where
  holds : σ → Bytes
  holds_write : ∀ {sink payload taken sink'}, Sink.write sink payload = (.ok taken, sink') →
    holds sink' = holds sink ++ payload.take taken
  holds_flush : ∀ {sink sink'}, Sink.flush sink = (.ok (), sink') → holds sink' = holds sink
  holds_publish : ∀ {sink sink'}, Sink.publish sink = (.ok (), sink') → holds sink' = holds sink

theorem Filled.holds {fresh sink : σ} {payloads : List Bytes} (contents : Contents σ)
    (h : Filled fresh payloads sink) :
    contents.holds sink = contents.holds fresh ++ payloads.flatten := by
  induction h with
  | fresh => simp
  | stored _ hs ih =>
    cases hs with
    | empty => simpa using ih
    | full _ hw => simp [contents.holds_write hw, ih]

theorem Published.holds {fresh sink : σ} {payloads : List Bytes} (contents : Contents σ)
    (h : Published fresh payloads sink) :
    contents.holds sink = contents.holds fresh ++ payloads.flatten := by
  obtain ⟨hfilled, hc⟩ := h
  cases hc with
  | flushed hf hp => rw [contents.holds_publish hp, contents.holds_flush hf, hfilled.holds]

end Sink

namespace SinkCall

def offered : SinkCall → Option Bytes
  | write payload _ => some payload
  | _ => none

def stored : SinkCall → Bytes
  | write payload (.ok taken) => payload.take taken
  | _ => []

end SinkCall

namespace Recorded

variable {σ : Type}

/-- The payloads that were passed to write, oldest first. -/
def offered (recorded : Recorded σ) : List Bytes :=
  recorded.calls.reverse.filterMap SinkCall.offered

/-- The bytes that the calls to write stored, oldest first. -/
def stored (recorded : Recorded σ) : Bytes := recorded.calls.reverse.flatMap SinkCall.stored

def contents [Sink σ] : Sink.Contents (Recorded σ) where
  holds := stored
  holds_write h := by
    obtain ⟨-, rfl⟩ := Prod.mk.inj h
    simp_all [Sink.write, log, stored, SinkCall.stored]
  holds_flush h := by
    obtain ⟨-, rfl⟩ := Prod.mk.inj h
    simp [stored, SinkCall.stored]
  holds_publish h := by
    obtain ⟨-, rfl⟩ := Prod.mk.inj h
    simp [stored, SinkCall.stored]

/-- Every call to write was answered with the length of what was passed to it. -/
def TookAll (recorded : Recorded σ) : Prop :=
  ∀ payload answer, .write payload answer ∈ recorded.calls → answer = .ok payload.length

variable [Sink σ]

theorem offered_stored {fresh sink : Recorded σ} {payload : Bytes}
    (hs : Sink.Stores fresh payload (.ok ()) sink) :
    sink.offered = fresh.offered ++ [payload].filter (· ≠ []) := by
  cases hs with
  | empty => simp
  | full hp hw =>
    obtain ⟨-, rfl⟩ := Prod.mk.inj hw
    simp [offered, SinkCall.offered, hp]

theorem offered_filled {fresh sink : Recorded σ} {payloads : List Bytes}
    (h : Sink.Filled fresh payloads sink) :
    sink.offered = fresh.offered ++ payloads.filter (· ≠ []) := by
  induction h with
  | fresh => simp
  | stored _ hs ih => rw [offered_stored hs, ih, List.filter_append, List.append_assoc]

theorem offered_committed {fresh sink : Recorded σ} {answer : Except HostError Unit}
    (hc : Sink.Commits fresh answer sink) : sink.offered = fresh.offered := by
  cases hc with
  | unflushed hf =>
    obtain ⟨-, rfl⟩ := Prod.mk.inj hf
    simp [offered, SinkCall.offered]
  | flushed hf hp =>
    obtain ⟨-, rfl⟩ := Prod.mk.inj hf
    obtain ⟨-, rfl⟩ := Prod.mk.inj hp
    simp [offered, SinkCall.offered]

theorem offered_discard (sink : Recorded σ) : (Sink.discard sink).2.offered = sink.offered := by
  simp [Sink.discard, log, offered, SinkCall.offered]

theorem offered_published {fresh sink : Recorded σ} {payloads : List Bytes}
    (h : Sink.Published fresh payloads sink) :
    sink.offered = fresh.offered ++ payloads.filter (· ≠ []) := by
  obtain ⟨hfilled, hc⟩ := h
  rw [offered_committed hc, offered_filled hfilled]

theorem offered_dropped {fresh sink : Recorded σ} {payloads : List Bytes}
    (h : Sink.Dropped fresh payloads sink) (hall : sink.TookAll) :
    sink.offered = fresh.offered ++ payloads.filter (· ≠ []) := by
  cases h with
  | filled hfilled => rw [offered_discard, offered_filled hfilled]
  | uncommitted hfilled hc => rw [offered_discard, offered_committed hc, offered_filled hfilled]
  | unstored _ hs =>
    cases hs with
    | short _ hn hw =>
      obtain ⟨hanswer, rfl⟩ := Prod.mk.inj hw
      have he := hall _ _ (List.mem_cons_of_mem _ List.mem_cons_self)
      rw [hanswer] at he
      exact absurd (Except.ok.inj he) hn
    | failed _ hw =>
      obtain ⟨hanswer, rfl⟩ := Prod.mk.inj hw
      have he := hall _ _ (List.mem_cons_of_mem _ List.mem_cons_self)
      rw [hanswer] at he
      cases he

theorem calls_published {fresh sink : Recorded σ} {payloads : List Bytes}
    (h : Sink.Published fresh payloads sink) :
    sink.calls.head? = some (.publish (.ok ())) := by
  obtain ⟨-, hc⟩ := h
  cases hc with
  | flushed _ hp =>
    obtain ⟨hanswer, rfl⟩ := Prod.mk.inj hp
    simp [hanswer]

end Recorded

end TftpReceiver
