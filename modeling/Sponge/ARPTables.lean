import Sponge.AddressResolution

/-!
# The tables of the interface agree

Requests are pending for exactly the addresses datagrams wait for, none of them has a known
Ethernet address, and no queue is empty. So the flush, which erases an entry of each table, finds
both of them.
-/
namespace Sponge
namespace NetworkInterface

/-- `erase(find(ip))`: erasing `end()` is undefined, here `none`. -/
def eraseFound {α : Type} (table : UInt32 → Option α) (ip : UInt32) : Option (UInt32 → Option α) :=
  (table ip).map fun _ => Function.update table ip none

/-- `_send_not_sent_datagrams` with its erasures checked. -/
def checkedFlush (s : NetworkInterface) (ip : UInt32) (eth : EthernetAddress) :
    Option NetworkInterface :=
  match s.notSentDgrams ip with
  | none => some s
  | some dgrams => do
    let s := dgrams.foldl (fun s payload => s.sendIPv4Frame eth payload) s
    let notSentDgrams ← eraseFound s.notSentDgrams ip
    let notMappedIPAddress ← eraseFound s.notMappedIPAddress ip
    return { s with notSentDgrams, notMappedIPAddress }

/-- `recvARP` with the flush checked. -/
def checkedRecvARP (s : NetworkInterface) (message : ARPMessage) :
    Outcome NetworkInterface (Option NetworkInterface) := do
  let s ← (s.learn message).answer message
  return s.checkedFlush message.senderIPAddress message.senderEthernetAddress

/-- The calls whose datagrams can be serialized. -/
def machine : Machine NetworkInterface Op := ⟨step, fun _ op => Serializes op⟩

/-- What the tables keep to; without an IPv4 address to ask with, two of them are empty. -/
structure Consistent (s : NetworkInterface) : Prop where
  paired : ∀ ip, s.notSentDgrams ip = none ↔ s.notMappedIPAddress ip = none
  unknown : ∀ ip, s.notSentDgrams ip ≠ none → s.ip2eth ip = none
  waiting : ∀ ip queue, s.notSentDgrams ip = some queue → queue ≠ []
  numbered : s.ipAddress.ipv4 = none → ∀ ip, s.notSentDgrams ip = none

theorem consistent_new (eth : EthernetAddress) (own : Address) : (new eth own).Consistent := by
  refine ⟨fun ip => iff_of_true rfl rfl, fun ip h => absurd rfl h, ?_, fun _ _ => rfl⟩
  intro ip queue h
  cases h

namespace Consistent
variable {s : NetworkInterface}

theorem tick (h : s.Consistent) (ms : ℕ) : (s.tick ms).Consistent := by
  refine ⟨h.paired, fun ip hheld => ?_, h.waiting, h.numbered⟩
  change (s.ip2eth ip).filter _ = none
  rw [h.unknown ip hheld]
  rfl

theorem recvFrame (h : s.Consistent) (frame : EthernetFrame) :
    (s.step (.recvFrame frame)).Consistent := by
  cases hheard : s.heard frame with
  | none =>
    rw [step_of_not_heard hheard]
    exact h
  | some message =>
    by_cases hbaffles : s.Baffles message
    · rw [step_of_baffles hheard hbaffles]
      -- the sender becomes known, but nothing was held for it
      exact ⟨h.paired, fun ip hheld => absurd (h.numbered hbaffles.2 ip) hheld, h.waiting,
        h.numbered⟩
    · rw [step_of_heard hheard hbaffles]
      refine ⟨?_, ?_, ?_, ?_⟩
      · intro ip
        simp only [pendingAfter_eq h.paired, Function.update_apply]
        split
        · exact iff_of_true rfl rfl
        · exact h.paired ip
      · intro ip
        simp only [learn, Function.update_apply]
        split
        · exact fun hheld => absurd rfl hheld
        · exact h.unknown ip
      · intro ip queue
        simp only [Function.update_apply]
        split
        · intro hqueue
          cases hqueue
        · exact h.waiting ip queue
      · intro hown ip
        simp only [Function.update_apply]
        split
        · rfl
        · exact h.numbered hown ip

theorem sendDatagram (h : s.Consistent) {dgram : InternetDatagram} (nextHop : Address)
    {bytes : BufferList} (hbytes : dgram.serialize = .ok bytes) :
    (s.step (.sendDatagram dgram nextHop)).Consistent := by
  cases hhop : nextHop.ipv4 with
  | none =>
    rw [step_of_not_ipv4 hhop]
    exact h
  | some target =>
    cases hmapped : s.ip2eth target with
    | some entry =>
      rw [step_of_mapped hhop hmapped]
      exact ⟨h.paired, h.unknown, h.waiting, h.numbered⟩
    | none =>
      by_cases hmute : s.Mute target
      · rw [step_of_mute hhop hmapped hmute]
        exact h
      · rw [step_of_not_mapped hhop hmapped hmute, awaiting]
        refine ⟨?_, ?_, ?_, fun hown => absurd ?_ hmute⟩
        · intro ip
          simp only [pending_eq, Function.update_apply]
          split
          · simp
          · exact h.paired ip
        · intro ip
          simp only [Function.update_apply]
          split
          · next hip => exact fun _ => hip ▸ hmapped
          · exact h.unknown ip
        · intro ip queue
          simp only [Function.update_apply]
          split
          · intro hqueue
            cases hqueue
            simp [hbytes, Except.toOption]
          · exact h.waiting ip queue
        · exact mute_of_not_pending hown ((h.paired target).mp (h.numbered hown target))

theorem step (h : s.Consistent) {op : Op} (hop : Serializes op) : (s.step op).Consistent := by
  cases op with
  | tick ms => exact h.tick ms
  | recvFrame frame => exact h.recvFrame frame
  | sendDatagram dgram nextHop =>
    obtain ⟨bytes, hbytes⟩ := hop
    exact h.sendDatagram nextHop hbytes

/-- The flush looks at nothing but the two tables, which the statements before it leave alone. -/
theorem checkedFlush_eq {t : NetworkInterface} (h : s.Consistent)
    (hheld : t.notSentDgrams = s.notSentDgrams)
    (hpending : t.notMappedIPAddress = s.notMappedIPAddress) (ip : UInt32) (eth : EthernetAddress) :
    t.checkedFlush ip eth = some (t.sendNotSentDatagrams ip eth) := by
  rw [checkedFlush, sendNotSentDatagrams]
  cases hqueue : t.notSentDgrams ip with
  | none => rfl
  | some queue =>
    obtain ⟨since, hsince⟩ : ∃ since, t.notMappedIPAddress ip = some since := by
      rw [← Option.ne_none_iff_exists', hpending, Ne, ← h.paired, ← hheld, hqueue]
      simp
    simp [foldl_sendIPv4Frame, eraseFound, hqueue, hsince]

theorem checkedRecvARP_eq (h : s.Consistent) (message : ARPMessage) :
    s.checkedRecvARP message = (s.recvARP message).map some := by
  rw [checkedRecvARP, recvARP]
  by_cases hbaffles : s.Baffles message
  · obtain ⟨text, hthrows⟩ := (s.learn message).answer_of_baffles hbaffles
    rw [hthrows]
    rfl
  · rw [(s.learn message).answer_eq hbaffles]
    exact congrArg Except.ok (h.checkedFlush_eq (by rfl) (by rfl) _ _)

end Consistent

/-- In every reachable state the tables agree, and a further ARP message makes the flush erase
only what is there. -/
theorem tables_consistent (eth : EthernetAddress) (own : Address) {ops : List Op}
    (hops : machine.Admits (new eth own) ops) :
    let s := machine.run (new eth own) ops
    s.Consistent ∧ ∀ message, s.checkedRecvARP message = (s.recvARP message).map some := by
  have hrun : (machine.run (new eth own) ops).Consistent :=
    machine.invariant (consistent_new eth own) (fun s op h hop => h.step hop) hops
  exact ⟨hrun, hrun.checkedRecvARP_eq⟩

theorem tables_consistent_waiting :
    (machine.run (new (Vector.replicate 6 1) (.fromIPv4Numeric 1))
      [.sendDatagram { header := { len := 21 }, payload := [[7]] } ⟨some 9, 0⟩,
        .tick 5001]).Consistent := by
  have hops : machine.Admits (new (Vector.replicate 6 1) (.fromIPv4Numeric 1))
      [.sendDatagram { header := { len := 21 }, payload := [[7]] } ⟨some 9, 0⟩, .tick 5001] :=
    ⟨⟨_, rfl⟩, trivial, trivial⟩
  exact (tables_consistent _ (.fromIPv4Numeric 1) hops).1

end NetworkInterface
end Sponge
