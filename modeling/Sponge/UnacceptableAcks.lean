import Sponge.SenderInvariant

/-!
# Acknowledgments the sender is to ignore

`ack_received` notes the advertised window before it checks the acknowledgment number. An
acknowledgment that fails the checks is therefore noticed later, by the next `fill_window` or
`tick`, unless its window is the one the sender has.
-/
namespace Sponge
namespace TCPSender

/-- It acknowledges what has not been sent, or less than has been acknowledged, or nothing while
the SYN is waited for. -/
def Unacceptable (s : TCPSender) (ackno : WrappingInt32) : Prop :=
  let absAckno := unwrap ackno s.isn s.checkpoint
  s.nextSeqno < absAckno ∨ absAckno < s.checkpoint ∨
    absAckno = 0 ∧ s.syn = true ∧ s.checkpoint = 0

instance (s : TCPSender) (ackno : WrappingInt32) : Decidable (s.Unacceptable ackno) :=
  inferInstanceAs (Decidable (_ ∨ _ ∨ _))

theorem ackReceived_of_unacceptable {s : TCPSender} {ackno : WrappingInt32}
    (h : s.Unacceptable ackno) (windowSize : UInt16) :
    s.ackReceived ackno windowSize = { s with rwnd := windowSize.toNat } := by
  rcases s.ackReceived_cases ackno windowSize with ⟨heq, -⟩ | ⟨-, hlo, hhi⟩
  · exact heq
  · rcases h with hout | hold | ⟨hzero, -, -⟩ <;> omega

/-- An operation of a run, or an acknowledgment inserted into it. -/
inductive Call where
  | own (op : Op)
  | inserted (ackno : WrappingInt32) (windowSize : UInt16)
  deriving DecidableEq

namespace Call

def op : Call → Op
  | .own op => op
  | .inserted ackno windowSize => .ackReceived ackno windowSize

/-- What is left of a call when the insertions are taken out. -/
def ownOps : Call → List Op
  | .own op => [op]
  | .inserted _ _ => []

/-- An insertion is unacceptable at the moment it is made. -/
def Ignorable (s : TCPSender) : Call → Prop
  | .own _ => True
  | .inserted ackno _ => s.Unacceptable ackno

/-- An insertion advertises the window the sender has. -/
def KeepsWindow (s : TCPSender) : Call → Prop
  | .own _ => True
  | .inserted _ windowSize => windowSize.toNat = s.rwnd

end Call

def insertions : Machine TCPSender Call where
  step s call := s.step call.op
  enabled s call := call.Ignorable s

instance (s : TCPSender) (call : Call) : Decidable (insertions.enabled s call) := by
  cases call <;> simp only [insertions, Call.Ignorable] <;> infer_instance

instance (s : TCPSender) (call : Call) : Decidable (call.KeepsWindow s) := by
  cases call <;> simp only [Call.KeepsWindow] <;> infer_instance

def emittedBy (s : TCPSender) (call : Call) : List TCPSegment := s.emitted call.op

theorem simulates_without_insertions :
    (insertions.restrict fun s call => call.KeepsWindow s).Simulates machine Call.ownOps Eq := by
  rintro s t call rfl ⟨hignorable, hwindow⟩
  cases call with
  | own op => rfl
  | inserted ackno windowSize =>
    have hack := ackReceived_of_unacceptable hignorable windowSize
    change s.ackReceived ackno windowSize = s
    rw [hack, show windowSize.toNat = s.rwnd from hwindow]

theorem emittedBy_eq (s t : TCPSender) (call : Call) (h : s = t)
    (hcall : (insertions.restrict fun s call => call.KeepsWindow s).enabled s call) :
    s.emittedBy call = machine.collect emitted t call.ownOps := by
  have hstep := simulates_without_insertions s t call h hcall
  subst h
  cases call with
  | own op => rfl
  | inserted ackno windowSize =>
    change s.ackReceived ackno windowSize = s at hstep
    change (s.ackReceived ackno windowSize).segmentsOut.drop s.segmentsOut.length = []
    rw [hstep, List.drop_length]

theorem unacceptable_acks_invisible_iff {s₀ : TCPSender} {calls : List Call}
    (hcalls : insertions.Admits s₀ calls) :
    (∀ past, past <+: calls →
      insertions.collect emittedBy s₀ past =
          machine.collect emitted s₀ (past.flatMap Call.ownOps) ∧
        insertions.run s₀ past = machine.run s₀ (past.flatMap Call.ownOps)) ↔
      (insertions.restrict fun s call => call.KeepsWindow s).Admits s₀ calls := by
  constructor
  · intro h
    -- Along the run, the latest call last; only the states matter in this direction.
    induction calls using List.reverseRecOn with
    | nil => trivial
    | append_singleton past call ih =>
      obtain ⟨hpast, hcall⟩ := (insertions.admits_snoc s₀ past call).mp hcalls
      have hkeeps := ih hpast fun p hp => h p (hp.trans (List.prefix_append _ _))
      refine (Machine.admits_snoc _ s₀ past call).mpr ⟨hkeeps, hcall, ?_⟩
      cases call with
      | own op => trivial
      | inserted ackno windowSize =>
        have hbefore := (h past (List.prefix_append _ _)).2
        have hafter := (h (past ++ [.inserted ackno windowSize]) (List.prefix_refl _)).2
        rw [Machine.run_snoc, List.flatMap_append] at hafter
        have hsame : (insertions.run s₀ past).ackReceived ackno windowSize =
            insertions.run s₀ past := by
          rw [hbefore] at hafter ⊢
          exact hafter.trans (congrArg (machine.run s₀) (List.append_nil _))
        rw [ackReceived_of_unacceptable hcall] at hsame
        exact congrArg rwnd hsame
  · rintro h past ⟨rest, rfl⟩
    have hpast := ((Machine.admits_append _ s₀ past rest).mp h).1
    rw [← insertions.restrict_collect fun s call => call.KeepsWindow s]
    exact ⟨simulates_without_insertions.collect_eq emittedBy_eq rfl hpast,
      simulates_without_insertions.run rfl hpast⟩

/-- A connection is set up with a window of 4 and a byte is sent. -/
def oneByteSent : List Call :=
  [.own .fillWindow, .own (.ackReceived ⟨6⟩ 4), .own (.write [1]), .own .fillWindow]

theorem unacceptable_acks_invisible_same_window :
    ∃ s₀, new 8 1000 (some ⟨5⟩) ⟨0⟩ = some s₀ ∧
      insertions.Admits s₀ (oneByteSent ++ [.inserted ⟨5⟩ 4, .inserted ⟨90⟩ 4, .own (.tick 1)]) ∧
      ∀ past, past <+: oneByteSent ++ [.inserted ⟨5⟩ 4, .inserted ⟨90⟩ 4, .own (.tick 1)] →
        insertions.collect emittedBy s₀ past =
            machine.collect emitted s₀ (past.flatMap Call.ownOps) ∧
          insertions.run s₀ past = machine.run s₀ (past.flatMap Call.ownOps) := by
  obtain ⟨s₀, hnew, hcalls, hkeeps⟩ : ∃ s₀, new 8 1000 (some ⟨5⟩) ⟨0⟩ = some s₀ ∧
      insertions.Admits s₀ (oneByteSent ++ [.inserted ⟨5⟩ 4, .inserted ⟨90⟩ 4, .own (.tick 1)]) ∧
      (insertions.restrict fun s call => call.KeepsWindow s).Admits s₀
        (oneByteSent ++ [.inserted ⟨5⟩ 4, .inserted ⟨90⟩ 4, .own (.tick 1)]) :=
    ⟨_, rfl, by decide +kernel, by decide +kernel⟩
  exact ⟨s₀, hnew, hcalls, (unacceptable_acks_invisible_iff hcalls).mpr hkeeps⟩

/-- An old acknowledgment with an empty window keeps the second byte back. -/
theorem old_ack_shuts_window :
    ∃ s₀, new 8 1000 (some ⟨5⟩) ⟨0⟩ = some s₀ ∧
      let calls := oneByteSent ++ [.inserted ⟨5⟩ 0, .own (.write [2]), .own .fillWindow]
      insertions.Admits s₀ calls ∧
        (insertions.collect emittedBy s₀ calls).length = 2 ∧
        (machine.collect emitted s₀ (calls.flatMap Call.ownOps)).length = 3 :=
  ⟨_, rfl, by decide +kernel, by decide +kernel, by decide +kernel⟩

end TCPSender
end Sponge
