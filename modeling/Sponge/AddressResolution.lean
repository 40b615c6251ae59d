import Sponge.ExpiringLookup
import Sponge.InterfaceCalls

/-!
# What the interface knows about a next hop

For each next hop the interface is a lookup of its Ethernet address, answered by ARP messages; the
answers live for 30 seconds, and a question is repeated after five.
-/
namespace Sponge
open MachineWords EthernetHeader

namespace NetworkInterface

/-- The call takes in an ARP message from `ip`. -/
def HearsFrom (ip : UInt32) (s : NetworkInterface) (op : Op) : Prop :=
  ∃ frame message, op = .recvFrame frame ∧ s.heard frame = some message ∧
    message.senderIPAddress = ip

/-- The call is given a datagram for the next hop `ip`. -/
def Wants (ip : UInt32) (_s : NetworkInterface) (op : Op) : Prop :=
  ∃ dgram nextHop, op = .sendDatagram dgram nextHop ∧ nextHop.ipv4 = some ip

/-- The call puts out an ARP request for `ip`. -/
def Requests (ip : UInt32) (s : NetworkInterface) (op : Op) : Prop :=
  ∃ sender, s.arpFrame ethernetBroadcast (s.arpRequest sender ip) ∈ s.emits op

/-- … although one for the same address is pending. -/
def RequestsAgain (ip : UInt32) (s : NetworkInterface) (op : Op) : Prop :=
  Requests ip s op ∧ s.notMappedIPAddress ip ≠ none

theorem regular_new (eth : EthernetAddress) (own : Address) : (new eth own).Regular :=
  ⟨fun _ _ h => (nomatch h), fun _ _ h => (nomatch h), fun _ => iff_of_true rfl rfl,
    fun _ _ => rfl⟩

section Regular
variable {s : NetworkInterface} {ip : UInt32}

/-- A datagram for an unknown address leaves a request pending for it. -/
theorem pending_eq (ip target : UInt32) :
    (if s.notMappedIPAddress target = none then
        Function.update s.notMappedIPAddress target (some s.timePassed)
      else s.notMappedIPAddress) ip =
      if ip = target then some ((s.notMappedIPAddress ip).getD s.timePassed)
      else s.notMappedIPAddress ip := by
  by_cases hip : ip = target
  · subst hip
    cases hpending : s.notMappedIPAddress ip with
    | none => simp
    | some since => simp [hpending]
  · rw [if_neg hip]
    split
    · exact Function.update_of_ne hip _ _
    · rfl

/-- An answer leaves no request pending for its sender, and the others as they are. -/
theorem pendingAfter_eq (hpaired : ∀ ip, s.notSentDgrams ip = none ↔ s.notMappedIPAddress ip = none)
    (ip target : UInt32) :
    s.pendingAfter target ip = if ip = target then none else s.notMappedIPAddress ip := by
  rw [pendingAfter]
  by_cases hip : ip = target
  · subst hip
    cases hheld : s.notSentDgrams ip with
    | none => simp [(hpaired ip).mp hheld]
    | some queue => simp
  · rw [if_neg hip]
    split
    · exact Function.update_of_ne hip _ _
    · rfl

/-- Without an IPv4 address of its own the interface asks for nothing. -/
theorem Regular.pending_eq_none (h : s.Regular) (hown : s.ipAddress.ipv4 = none) (ip : UInt32) :
    s.notMappedIPAddress ip = none :=
  (h.paired ip).mp (h.numbered hown ip)

theorem Regular.tick (h : s.Regular) {ms : ℕ} (htime : s.timePassed + ms < 2 ^ 64) :
    (s.tick ms).Regular := by
  have hnow : (s.tick ms).timePassed = s.timePassed + ms := addMod_of_lt htime
  refine ⟨?_, ?_, h.paired, h.numbered⟩
  · intro ip entry hentry
    have hle := h.known_le ip entry (Option.filter_eq_some_iff.mp hentry).1
    omega
  · intro ip since hsince
    have hle := h.asked_le ip since hsince
    omega

theorem Regular.learn (h : s.Regular) (message : ARPMessage) : (s.learn message).Regular := by
  refine ⟨?_, h.asked_le, h.paired, h.numbered⟩
  apply (Function.forall_update_iff s.ip2eth (p := fun _ known =>
    ∀ entry, known = some entry → entry.2 ≤ s.timePassed)).mpr
  refine ⟨fun entry hentry => ?_, fun ip _ => h.known_le ip⟩
  cases hentry
  exact le_rfl

theorem Regular.recvFrame (h : s.Regular) (frame : EthernetFrame) :
    (s.step (.recvFrame frame)).Regular := by
  cases hheard : s.heard frame with
  | none =>
    rw [step_of_not_heard hheard]
    exact h
  | some message =>
    by_cases hbaffles : s.Baffles message
    · rw [step_of_baffles hheard hbaffles]
      exact h.learn message
    · rw [step_of_heard hheard hbaffles]
      refine ⟨(h.learn message).known_le, ?_, ?_, ?_⟩
      · intro ip since hsince
        change s.pendingAfter _ ip = some since at hsince
        rw [pendingAfter_eq h.paired] at hsince
        split at hsince
        · cases hsince
        · exact h.asked_le ip since hsince
      · intro ip
        change Function.update s.notSentDgrams _ none ip = none ↔ s.pendingAfter _ ip = none
        rw [pendingAfter_eq h.paired, Function.update_apply]
        split
        · exact iff_of_true rfl rfl
        · exact h.paired ip
      · intro hown ip
        change Function.update s.notSentDgrams _ none ip = none
        rw [Function.update_apply]
        split
        · rfl
        · exact h.numbered hown ip

theorem Regular.sendDatagram (h : s.Regular) (dgram : InternetDatagram) (nextHop : Address) :
    (s.step (.sendDatagram dgram nextHop)).Regular := by
  cases hhop : nextHop.ipv4 with
  | none =>
    rw [step_of_not_ipv4 hhop]
    exact h
  | some target =>
    cases hmapped : s.ip2eth target with
    | some entry =>
      rw [step_of_mapped hhop hmapped]
      exact ⟨h.known_le, h.asked_le, h.paired, h.numbered⟩
    | none =>
      by_cases hmute : s.Mute target
      · rw [step_of_mute hhop hmapped hmute]
        exact h
      · rw [step_of_not_mapped hhop hmapped hmute]
        refine ⟨h.known_le, ?_, ?_, fun hown => absurd ?_ hmute⟩
        · intro ip since hsince
          simp only [awaiting, pending_eq] at hsince
          split at hsince
          · cases hsince
            cases hpending : s.notMappedIPAddress ip with
            | none => exact le_rfl
            | some first => exact h.asked_le ip first hpending
          · exact h.asked_le ip since hsince
        · intro ip
          simp only [awaiting, pending_eq, Function.update_apply]
          split
          · simp
          · exact h.paired ip
        · exact mute_of_not_pending hown (h.pending_eq_none hown target)

theorem Regular.step (h : s.Regular) {op : Op} (htime : s.timePassed + op.ms < 2 ^ 64) :
    (s.step op).Regular := by
  cases op with
  | tick ms => exact h.tick htime
  | recvFrame frame => exact h.recvFrame frame
  | sendDatagram dgram nextHop => exact h.sendDatagram dgram nextHop

end Regular

section Observe
variable {s : NetworkInterface} {ip : UInt32} {op : Op}

def lookup (ip : UInt32) (s : NetworkInterface) : Lookup EthernetAddress :=
  ⟨s.ip2eth ip, s.notMappedIPAddress ip, s.timePassed⟩

/-- What a call means for the next hop `ip`. An interface without an IPv4 address of its own never
asks, so it does not want to know either. -/
def event (ip : UInt32) (s : NetworkInterface) : Op → Lookup.Event EthernetAddress
  | .sendDatagram _ nextHop =>
    if nextHop.ipv4 = some ip ∧ s.ipAddress.ipv4 ≠ none then .want else .idle
  | .recvFrame frame =>
    match s.heard frame with
    | some message =>
      if message.senderIPAddress = ip then .learn message.senderEthernetAddress else .idle
    | none => .idle
  | .tick ms => .pass ms

theorem Regular.lookup_sendDatagram (h : s.Regular) (dgram : InternetDatagram)
    (nextHop : Address) : (s.step (.sendDatagram dgram nextHop)).lookup ip =
      (s.lookup ip).step 30000 (event ip s (.sendDatagram dgram nextHop)) := by
  rw [event]
  cases hhop : nextHop.ipv4 with
  | none =>
    rw [step_of_not_ipv4 hhop]
    rfl
  | some target =>
    cases hmapped : s.ip2eth target with
    | some entry =>
      rw [step_of_mapped hhop hmapped]
      split
      · next hsame =>
        cases hsame.1
        simp [lookup, Lookup.step, hmapped]
      · rfl
    | none =>
      by_cases hown : s.ipAddress.ipv4 = none
      · have hmute := mute_of_not_pending hown (h.pending_eq_none hown target)
        rw [step_of_mute hhop hmapped hmute, if_neg (fun hwants => hwants.2 hown)]
        rfl
      · rw [step_of_not_mapped hhop hmapped (fun hmute => hown hmute.2)]
        simp only [lookup, awaiting, pending_eq]
        by_cases hip : ip = target
        · subst hip
          simp [Lookup.step, hmapped, hown]
        · simp [Lookup.step, hip, Ne.symm hip]

theorem Regular.lookup_recvFrame (h : s.Regular) (frame : EthernetFrame) :
    (s.step (.recvFrame frame)).lookup ip =
      (s.lookup ip).step 30000 (event ip s (.recvFrame frame)) := by
  cases hheard : s.heard frame with
  | none =>
    rw [step_of_not_heard hheard]
    simp [event, hheard, Lookup.step]
  | some message =>
    have hpending : (s.step (.recvFrame frame)).notMappedIPAddress ip =
        if ip = message.senderIPAddress then none else s.notMappedIPAddress ip := by
      by_cases hbaffles : s.Baffles message
      · rw [step_of_baffles hheard hbaffles]
        -- nothing is pending, so nothing has to be forgotten
        exact (h.pending_eq_none hbaffles.2 ip).trans
          (by rw [h.pending_eq_none hbaffles.2, ite_self])
      · rw [step_of_heard hheard hbaffles]
        exact pendingAfter_eq h.paired ip _
    have hknown : (s.step (.recvFrame frame)).ip2eth = (s.learn message).ip2eth ∧
        (s.step (.recvFrame frame)).timePassed = s.timePassed := by
      by_cases hbaffles : s.Baffles message
      · rw [step_of_baffles hheard hbaffles]
        exact ⟨rfl, rfl⟩
      · rw [step_of_heard hheard hbaffles]
        exact ⟨rfl, rfl⟩
    simp only [lookup, hpending, hknown.1, hknown.2, NetworkInterface.learn]
    by_cases hip : ip = message.senderIPAddress
    · subst hip
      simp [event, hheard, Lookup.step]
    · simp [event, hheard, Lookup.step, hip, Ne.symm hip]

theorem Regular.lookup_tick (h : s.Regular) {ms : ℕ} (htime : s.timePassed + ms + 30000 < 2 ^ 64) :
    (s.tick ms).lookup ip = (s.lookup ip).step 30000 (.pass ms) := by
  have hnow : addMod 64 s.timePassed ms = s.timePassed + ms := addMod_of_lt (by omega)
  have hkept : (s.ip2eth ip).filter (fun entry =>
        !decide (addMod 64 entry.2 30000 < addMod 64 s.timePassed ms)) =
      (s.ip2eth ip).filter fun entry => !decide (entry.2 + 30000 < s.timePassed + ms) := by
    rw [hnow]
    cases hknown : s.ip2eth ip with
    | none => simp only [Option.filter_none]
    | some entry =>
      have hle := h.known_le ip entry hknown
      simp only [Option.filter, addMod_of_lt (show entry.2 + 30000 < 2 ^ 64 by omega)]
  exact congrArg₂ (fun known now => Lookup.mk known (s.notMappedIPAddress ip) now) hkept hnow

/-- For each next hop the interface is a lookup. -/
def observation (ip : UInt32) : Observation calls EthernetAddress 30000 where
  view := lookup ip
  event := event ip
  duration := Op.ms
  view_step := by
    rintro s op ⟨hregular, htime⟩
    cases op with
    | sendDatagram dgram nextHop => exact hregular.lookup_sendDatagram dgram nextHop
    | recvFrame frame => exact hregular.lookup_recvFrame frame
    | tick ms => exact hregular.lookup_tick htime
  event_ms := by
    intro s op
    cases op with
    | sendDatagram dgram nextHop =>
      simp only [event]
      split <;> rfl
    | recvFrame frame =>
      simp only [event]
      split
      · split <;> rfl
      · rfl
    | tick ms => rfl

theorem event_learn_iff {eth : EthernetAddress} : event ip s op = .learn eth ↔
    ∃ frame message, op = .recvFrame frame ∧ s.heard frame = some message ∧
      message.senderIPAddress = ip ∧ message.senderEthernetAddress = eth := by
  cases op with
  | sendDatagram dgram nextHop =>
    simp only [event]
    split <;> simp
  | recvFrame frame =>
    cases hheard : s.heard frame with
    | none => simp [event, hheard]
    | some message =>
      by_cases hip : message.senderIPAddress = ip
      · simp [event, hheard, hip]
      · simp [event, hheard, hip]
  | tick ms => simp [event]

theorem learns_eq (ip : UInt32) : (observation ip).Learns = HearsFrom ip := by
  funext s op
  apply propext
  constructor
  · rintro ⟨eth, hlearn⟩
    obtain ⟨frame, message, hop, hheard, hip, -⟩ := event_learn_iff.mp hlearn
    exact ⟨frame, message, hop, hheard, hip⟩
  · rintro ⟨frame, message, hop, hheard, hip⟩
    exact ⟨_, event_learn_iff.mpr ⟨frame, message, hop, hheard, hip, rfl⟩⟩

theorem wants_iff : (observation ip).Wants s op ↔ Wants ip s op ∧ s.ipAddress.ipv4 ≠ none := by
  change event ip s op = .want ↔ _
  cases op with
  | sendDatagram dgram nextHop => simp [event, Wants]
  | recvFrame frame =>
    simp only [event, Wants]
    split
    · split <;> simp
    · simp
  | tick ms => simp [event, Wants]

end Observe

section Frames
variable {s : NetworkInterface} {ip : UInt32} {op : Op} {frame : EthernetFrame}

/-- The IPv4 frames a call puts out go to the address known for its next hop, or to the sender of
the ARP message it takes in. -/
theorem emits_ipv4 (hframe : frame ∈ s.emits op) (hipv4 : frame.header.type = typeIPv4) :
    (∃ ip since, Wants ip s op ∧ s.ip2eth ip = some (frame.header.dst, since)) ∨
      ∃ ip, event ip s op = .learn frame.header.dst := by
  cases op with
  | sendDatagram dgram nextHop =>
    left
    cases hhop : nextHop.ipv4 with
    | none => simp [emits_of_not_ipv4 hhop] at hframe
    | some ip =>
      cases hmapped : s.ip2eth ip with
      | none =>
        rw [emits_of_not_mapped hhop hmapped, requests] at hframe
        split at hframe
        · obtain ⟨own, -, rfl⟩ := List.mem_map.mp hframe
          cases hipv4
        · cases hframe
      | some entry =>
        rw [emits_of_mapped hhop hmapped] at hframe
        obtain ⟨bytes, -, rfl⟩ := List.mem_map.mp hframe
        exact ⟨ip, entry.2, ⟨dgram, nextHop, rfl, hhop⟩, hmapped⟩
  | recvFrame received =>
    right
    cases hheard : s.heard received with
    | none => simp [emits_of_not_heard hheard] at hframe
    | some message =>
      by_cases hbaffles : s.Baffles message
      · simp [emits_of_baffles hheard hbaffles] at hframe
      · rw [emits_of_heard hheard hbaffles, replies] at hframe
        rcases List.mem_append.mp hframe with hreply | hheld
        · split at hreply
          · rw [List.mem_singleton.mp hreply] at hipv4
            cases hipv4
          · cases hreply
        · obtain ⟨bytes, -, rfl⟩ := List.mem_map.mp hheld
          exact ⟨_, event_learn_iff.mpr ⟨received, message, rfl, hheard, rfl, rfl⟩⟩
  | tick ms => simp [emits_tick] at hframe

theorem arpFrame_inj {dst dst' : EthernetAddress} {m m' : ARPMessage} (hm : m.supported = true)
    (hm' : m'.supported = true) (h : s.arpFrame dst m = s.arpFrame dst' m') : m = m' := by
  have hbytes : m.typeBytes ++ m.addressBytes = m'.typeBytes ++ m'.addressBytes :=
    List.singleton_inj.mp (congrArg EthernetFrame.payload h)
  have hparse := ARPMessage.parse_bytes {} hm
  rw [hbytes, ARPMessage.parse_bytes {} hm'] at hparse
  exact (congrArg Prod.snd hparse).symm

theorem mem_requests_iff {target : UInt32} :
    (∃ sender, s.arpFrame ethernetBroadcast (s.arpRequest sender ip) ∈ s.requests target) ↔
      ip = target ∧ s.ipAddress.ipv4 ≠ none ∧ s.isDue target = true := by
  rw [requests]
  split
  · next hdue =>
    rw [and_iff_left hdue]
    constructor
    · rintro ⟨sender, hmem⟩
      obtain ⟨own, hown, hsame⟩ := List.mem_map.mp hmem
      rw [Option.mem_toList] at hown
      have htarget := congrArg ARPMessage.targetIPAddress (arpFrame_inj rfl rfl hsame)
      exact ⟨htarget.symm, Option.ne_none_iff_exists'.mpr ⟨own, hown⟩⟩
    · rintro ⟨rfl, hown⟩
      obtain ⟨own, hown⟩ := Option.ne_none_iff_exists'.mp hown
      exact ⟨own, by simp [hown]⟩
  · next hdue => simp [hdue]

theorem ipv4Frame_ne_arpFrame (eth dst : EthernetAddress) (payload : BufferList)
    (message : ARPMessage) : s.ipv4Frame eth payload ≠ s.arpFrame dst message := by
  intro h
  have htype : typeIPv4 = typeARP := congrArg (·.header.type) h
  cases htype

theorem not_mem_ipv4Frames (eth dst : EthernetAddress) (payloads : List BufferList)
    (message : ARPMessage) : s.arpFrame dst message ∉ payloads.map (s.ipv4Frame eth) := by
  intro hmem
  obtain ⟨payload, -, hsame⟩ := List.mem_map.mp hmem
  exact s.ipv4Frame_ne_arpFrame eth dst payload message hsame

theorem not_mem_replies (sender : UInt32) (message : ARPMessage) :
    s.arpFrame ethernetBroadcast (s.arpRequest sender ip) ∉ s.replies message := by
  intro hmem
  rw [replies] at hmem
  split at hmem
  · have hsame := arpFrame_inj rfl rfl (List.mem_singleton.mp hmem)
    cases congrArg ARPMessage.opcode hsame
  · cases hmem

/-- A request for an address goes out with a datagram for it, if the address is unknown, the
interface has one of its own, and no request is pending for less than five seconds. -/
theorem requests_iff_due : Requests ip s op ↔ Wants ip s op ∧ s.ipAddress.ipv4 ≠ none ∧
    s.ip2eth ip = none ∧ s.isDue ip = true := by
  rw [Requests]
  cases op with
  | sendDatagram dgram nextHop =>
    have hwants : Wants ip s (.sendDatagram dgram nextHop) ↔ nextHop.ipv4 = some ip := by
      simp [Wants]
    rw [hwants]
    cases hhop : nextHop.ipv4 with
    | none => simp [emits_of_not_ipv4 hhop]
    | some target =>
      cases hmapped : s.ip2eth target with
      | none =>
        rw [emits_of_not_mapped hhop hmapped, mem_requests_iff, Option.some.injEq]
        constructor
        · rintro ⟨rfl, hown, hdue⟩
          exact ⟨rfl, hown, hmapped, hdue⟩
        · rintro ⟨rfl, hown, -, hdue⟩
          exact ⟨rfl, hown, hdue⟩
      | some entry =>
        rw [emits_of_mapped hhop hmapped]
        refine iff_of_false (fun ⟨_, hmem⟩ => not_mem_ipv4Frames _ _ _ _ hmem) ?_
        rintro ⟨hsame, -, hunknown, -⟩
        cases hsame
        rw [hmapped] at hunknown
        cases hunknown
  | recvFrame received =>
    refine iff_of_false ?_ (by simp [Wants])
    rintro ⟨sender, hmem⟩
    cases hheard : s.heard received with
    | none => simp [emits_of_not_heard hheard] at hmem
    | some message =>
      by_cases hbaffles : s.Baffles message
      · simp [emits_of_baffles hheard hbaffles] at hmem
      · rw [emits_of_heard hheard hbaffles] at hmem
        rcases List.mem_append.mp hmem with hreply | hheld
        · exact not_mem_replies sender message hreply
        · exact not_mem_ipv4Frames _ _ _ _ hheld
  | tick ms => simp [emits_tick, Wants]

/-- A request goes out exactly when the lookup of the address asks. -/
theorem requests_iff (h : calls.enabled s op) :
    Requests ip s op ↔ (observation ip).Asks 5000 s op := by
  obtain ⟨hregular, htime⟩ := h
  rw [requests_iff_due, Observation.Asks, wants_iff, and_assoc]
  refine and_congr_right fun _ => and_congr_right fun _ => and_congr_right fun _ => ?_
  change _ ↔ ∀ since, s.notMappedIPAddress ip = some since → since + 5000 < s.timePassed
  rw [isDue]
  cases hpending : s.notMappedIPAddress ip with
  | none => simp
  | some since =>
    have hle := hregular.asked_le ip since hpending
    simp [addMod_of_lt (show since + 5000 < 2 ^ 64 by omega)]

end Frames

section Runs
variable {eth : EthernetAddress} {ip : UInt32} {ops past : List Op} {op : Op}

/-- Every run within the clock's range meets the guard. -/
theorem Regular.admits {s : NetworkInterface} (h : s.Regular)
    (htime : s.timePassed + elapsed ops + 30000 < 2 ^ 64) : calls.Admits s ops := by
  induction ops generalizing s with
  | nil => trivial
  | cons op ops ih =>
    rw [elapsed, List.map_cons, List.sum_cons] at htime
    have hnow : (calls.step s op).timePassed = s.timePassed + op.ms :=
      (observation 0).now_step ⟨h, by omega⟩
    refine ⟨⟨h, by omega⟩, ih (h.step (by omega)) ?_⟩
    rw [hnow, elapsed]
    omega

theorem admits_calls (eth : EthernetAddress) (own : Address)
    (htime : elapsed ops + 30000 < 2 ^ 64) :
    calls.Admits (new eth own) ops :=
  (regular_new eth own).admits (by rwa [show (new eth own).timePassed = 0 from rfl, Nat.zero_add])

/-- Every IPv4 frame goes to the sender of the latest ARP message from its next hop, which is at
most 30 seconds old. -/
theorem arp_cache_fresh (eth : EthernetAddress) (own : Address)
    (htime : elapsed (past ++ [op]) < 2 ^ 63) :
    let s := calls.run (new eth own) past
    (s.step op).framesOut = s.framesOut ++ s.emits op ∧
    ∀ frame ∈ s.emits op, frame.header.type = typeIPv4 →
      ∃ ip, s.hop op = some ip ∧ ∃ early received late message,
        past ++ [op] = early ++ .recvFrame received :: late ∧
        (calls.run (new eth own) early).heard received = some message ∧
        message.senderIPAddress = ip ∧ message.senderEthernetAddress = frame.header.dst ∧
        ¬ calls.Occurs (HearsFrom ip)
          (calls.run (new eth own) (early ++ [.recvFrame received])) late ∧
        elapsed late ≤ 30000 := by
  intro s
  refine ⟨s.framesOut_step op, fun frame hframe hipv4 => ?_⟩
  have hadmits := admits_calls eth own (show elapsed (past ++ [op]) + 30000 < 2 ^ 64 by omega)
  have hrecent : ∃ ip, s.hop op = some ip ∧
      (observation ip).Recent (new eth own) (past ++ [op]) frame.header.dst := by
    rcases emits_ipv4 hframe hipv4 with
      ⟨ip, since, ⟨dgram, nextHop, rfl, hhop⟩, hmapped⟩ | ⟨ip, hlearn⟩
    · have hknown : (calls.run (new eth own) (past ++ [.sendDatagram dgram nextHop])).ip2eth ip =
          some (frame.header.dst, since) := by
        rw [calls.run_snoc]
        exact (congrFun (congrArg ip2eth (step_of_mapped hhop hmapped)) ip).trans hmapped
      exact ⟨ip, hhop, (observation ip).recent_of_known rfl hadmits hknown⟩
    · obtain ⟨received, message, rfl, hheard, hip, -⟩ := event_learn_iff.mp hlearn
      refine ⟨ip, by rw [hop, hheard, Option.map_some, hip], ?_⟩
      have hknown : ((observation ip).view (calls.run (new eth own)
          (past ++ [.recvFrame received]))).known = some (frame.header.dst, s.timePassed) := by
        rw [calls.run_snoc, (observation ip).view_step _ _ ((calls.admits_snoc _ _ _).mp hadmits).2]
        exact congrArg (fun e => ((s.lookup ip).step 30000 e).known) hlearn
      exact (observation ip).recent_of_known rfl hadmits hknown
  obtain ⟨ip, hhop, early, op', late, hsplit, hlearn, hlast, hlate⟩ := hrecent
  obtain ⟨received, message, rfl, hheard, hip, hdst⟩ := event_learn_iff.mp hlearn
  rw [learns_eq] at hlast
  exact ⟨ip, hhop, early, received, late, message, hsplit, hheard, hip, hdst, hlast, hlate⟩

open ARPMessage in
/-- Half a minute after the reply the address is still used. -/
theorem arp_cache_fresh_reply :
    let reply : ARPMessage := {
      opcode := opcodeReply, senderIPAddress := 9
      senderEthernetAddress := #v[2, 2, 2, 2, 2, 2], targetIPAddress := 1 }
    let past := [Op.recvFrame ⟨⟨#v[1, 1, 1, 1, 1, 1], #v[2, 2, 2, 2, 2, 2], typeARP⟩,
        [reply.typeBytes ++ reply.addressBytes]⟩, .tick 30000]
    let op := Op.sendDatagram { header := { len := 20 } } ⟨some 9, 0⟩
    let s := calls.run (new #v[1, 1, 1, 1, 1, 1] (.fromIPv4Numeric 1)) past
    (s.emits op).map (·.header.dst) = [#v[2, 2, 2, 2, 2, 2]] ∧
      ∀ frame ∈ s.emits op, frame.header.type = typeIPv4 → ∃ ip, s.hop op = some ip ∧
        ∃ early received late message, past ++ [op] = early ++ .recvFrame received :: late ∧
          (calls.run (new #v[1, 1, 1, 1, 1, 1] (.fromIPv4Numeric 1)) early).heard received =
            some message ∧
          message.senderIPAddress = ip ∧ message.senderEthernetAddress = frame.header.dst ∧
          ¬ calls.Occurs (HearsFrom ip) (calls.run (new #v[1, 1, 1, 1, 1, 1] (.fromIPv4Numeric 1))
            (early ++ [.recvFrame received])) late ∧
          elapsed late ≤ 30000 := by
  intro reply past op s
  exact ⟨by decide +kernel, (arp_cache_fresh _ (.fromIPv4Numeric 1) (by decide)).2⟩

/-- Without an IPv4 address of its own the interface never asks. -/
theorem not_requests {own : Address} (hown : own.ipv4 = none) (past : List Op) (op : Op) :
    ¬ Requests ip (calls.run (new eth own) past) op := by
  intro h
  have hsome := (requests_iff_due.mp h).2.1
  rw [run_ipAddress] at hsome
  exact hsome hown

/-- Requests for an address are more than five seconds apart exactly if no datagram for it comes
within five seconds of a repeated request: the time of that one is not noted. -/
theorem requests_spaced_iff (eth : EthernetAddress) (own : Address) (ip : UInt32)
    (htime : elapsed ops + 30000 < 2 ^ 64) :
    calls.Spaced (Requests ip) (Requests ip) (HearsFrom ip) Op.ms 5000 (new eth own) ops ↔
      calls.Spaced (RequestsAgain ip) (Wants ip) (HearsFrom ip) Op.ms 5000 (new eth own) ops := by
  by_cases hown : own.ipv4 = none
  · exact iff_of_true (calls.spaced_of_never (not_requests hown) ops)
      (calls.spaced_of_never (fun past op h => not_requests hown past op h.1) ops)
  have hops := admits_calls eth own htime
  have hask : ∀ past op, calls.enabled (calls.run (new eth own) past) op →
      (Requests ip (calls.run (new eth own) past) op ↔
        (observation ip).Asks 5000 (calls.run (new eth own) past) op) :=
    fun past op h => requests_iff h
  have hagain : ∀ past op, calls.enabled (calls.run (new eth own) past) op →
      (RequestsAgain ip (calls.run (new eth own) past) op ↔
        (observation ip).AsksAgain 5000 (calls.run (new eth own) past) op) :=
    fun past op h => and_congr (requests_iff h) Iff.rfl
  have hwants : ∀ past op, calls.enabled (calls.run (new eth own) past) op →
      (Wants ip (calls.run (new eth own) past) op ↔
        (observation ip).Wants (calls.run (new eth own) past) op) := by
    intro past op _
    rw [wants_iff, run_ipAddress]
    exact (and_iff_left hown).symm
  rw [Machine.spaced_congr hops hask hask, Machine.spaced_congr hops hagain hwants, ← learns_eq]
  exact (observation ip).spaced_iff hops

end Runs

section Small

def hostOne : NetworkInterface := new #v[1, 1, 1, 1, 1, 1] (.fromIPv4Numeric 1)

/-- A datagram for the host 9. -/
def toNine : Op := .sendDatagram { header := { len := 20 } } ⟨some 9, 0⟩

/-- The second request comes after six seconds, and nothing is asked for afterwards. -/
theorem requests_spaced_twice :
    calls.Spaced (Requests 9) (Requests 9) (HearsFrom 9) Op.ms 5000 hostOne
      [toNine, .tick 6000, toNine] := by
  apply (requests_spaced_iff _ (.fromIPv4Numeric 1) _ (by decide)).mpr
  intro early a mid b late hsplit hagain
  -- the repeated request is the last call of the run
  rcases early with _ | ⟨x, _ | ⟨y, _ | ⟨z, rest⟩⟩⟩
  · exact absurd rfl hagain.2
  · obtain ⟨rfl, rfl, -⟩ : toNine = x ∧ .tick 6000 = a ∧ _ := by simpa using hsplit
    obtain ⟨⟨dgram, nextHop, htick, -⟩, -⟩ := requests_iff_due.mp hagain.1
    cases htick
  · simp at hsplit
  · simp at hsplit

/-- A request, a second one after five seconds, and a third one at once. -/
theorem requests_not_spaced :
    ¬ calls.Spaced (Requests 9) (Requests 9) (HearsFrom 9) Op.ms 5000 hostOne
      [toNine, .tick 5001, toNine, toNine] := by
  intro h
  have hfirst : Requests 9 (calls.run hostOne [toNine, .tick 5001]) toNine :=
    requests_iff_due.mpr ⟨⟨_, _, rfl, rfl⟩, by decide +kernel, by decide +kernel, by decide +kernel⟩
  have hsecond : Requests 9 (calls.run hostOne [toNine, .tick 5001, toNine]) toNine :=
    requests_iff_due.mpr ⟨⟨_, _, rfl, rfl⟩, by decide +kernel, by decide +kernel, by decide +kernel⟩
  exact absurd (h [toNine, .tick 5001] toNine [] toNine [] rfl hfirst hsecond id) (by decide)

end Small
end NetworkInterface
end Sponge
