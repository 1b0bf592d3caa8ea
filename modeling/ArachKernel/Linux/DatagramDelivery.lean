import ArachKernel.Linux.DatagramSteps
import Mathlib.Data.List.Forall2

/-!
Datagram sockets refine mailboxes. The mail is kept from the calls and their answers
alone: which handle is bound to which address, what has been sent to each handle, and what
its owner has received. At every handle the received messages are the first of those that
were sent, and what is left of these is in the queue of the endpoint as long as it lives.
-/

namespace ArachKernel.LinuxDatagram

open Table Function

/-! ### The mail -/

/-- What the calls have made known. A received message is kept with the size of the buffer
that it was read into. -/
structure Mail where
  boundTo : UnixAddress → Option ℕ
  addressOf : ℕ → UnixAddress
  sent : ℕ → List Datagram
  received : ℕ → List (ℕ × ReceivedDatagram)

namespace Mail

def empty : Mail where
  boundTo _ := none
  addressOf _ := .unnamed
  sent _ := []
  received _ := []

def bind (m : Mail) (handle : ℕ) (address : UnixAddress) : Mail :=
  { m with
    boundTo := update m.boundTo address (some handle)
    addressOf := update m.addressOf handle address }

/-- A message goes to the handle that its destination is bound to. -/
def send (m : Mail) (destination : UnixAddress) (d : Datagram) : Mail :=
  match m.boundTo destination with
  | none => m
  | some target => { m with sent := update m.sent target (m.sent target ++ [d]) }

def receive (m : Mail) (handle size : ℕ) (d : ReceivedDatagram) : Mail :=
  { m with received := update m.received handle (m.received handle ++ [(size, d)]) }

def close (m : Mail) (handle : ℕ) : Mail :=
  { m with boundTo := fun address => (m.boundTo address).filter (· ≠ handle) }

/-- The mail after a call. A look at a message does not take it. -/
def note (m : Mail) {α : Type} : DatagramCall α → α → Mail
  | .bind _ handle address, .ok () => m.bind handle address
  | .send owner handle destination input _, .ok _ =>
    m.send destination { sender := owner, senderAddress := m.addressOf handle, bytes := input }
  | .receive _ handle size flags, .ok d =>
    if flags &&& msgPeek ≠ 0 then m else m.receive handle size d
  | .close _ handle, .ok () => m.close handle
  | _, _ => m

end Mail

/-- The mail and the table after some calls. -/
inductive Delivers : Mail → DatagramTable → Prop
  | new : Delivers .empty fun _ => .empty
  | call {m : Mail} {t : DatagramTable} (h : Delivers m t) {α : Type} (c : DatagramCall α) :
      Delivers (m.note c (exec _ c t).1) (exec _ c t).2

/-! ### The invariant -/

/-- The answers show these messages, one after the other. -/
def Shows (answers : List (ℕ × ReceivedDatagram)) (messages : List Datagram) : Prop :=
  List.Forall₂ (fun answer d => answer.2 = d.view answer.1) answers messages

/-- The mail of an endpoint: its queue is what was sent and not received. -/
structure Accounted (m : Mail) (handle : ℕ) (slot : Endpoint) : Prop where
  queue : slot.queue.Bounded maximumQueueLength
  address : m.addressOf handle = slot.senderAddress
  messages : ∃ taken, Shows (m.received handle) taken ∧ m.sent handle = taken ++ slot.waiting

structure Delivered (m : Mail) (t : DatagramTable) : Prop where
  live : ∀ handle i, Names t handle i → Accounted m handle (t i)
  gone : ∀ handle, ∃ taken rest, Shows (m.received handle) taken ∧ m.sent handle = taken ++ rest
  unborn : ∀ handle i generation, decode handle = some (i, generation) →
    (t i).generation < generation →
    m.sent handle = [] ∧ m.received handle = [] ∧ m.addressOf handle = .unnamed
  boundTo : ∀ address handle, m.boundTo address = some handle ↔
    ∃ i, Names t handle i ∧ (t i).bound ∧ (t i).address = address
  named : ∀ i, (t i).occupied → ∃ handle, Names t handle i
  distinct : ∀ i j, (t i).occupied → (t j).occupied → (t i).bound →
    (t j).bound → (t i).address = (t j).address → i = j

variable {m m' : Mail} {t : DatagramTable}

theorem Delivered.new : Delivered .empty fun _ => .empty where
  live _ _ h := by cases h.occupied
  gone _ := ⟨[], [], .nil, rfl⟩
  unborn _ _ _ _ _ := ⟨rfl, rfl, rfl⟩
  boundTo _ _ := ⟨nofun, fun ⟨_, h, _⟩ => (by cases h.occupied)⟩
  named _ h := by cases h
  distinct _ _ h := by cases h

/-- The search finds the endpoint that the mail knows. -/
theorem Delivered.boundTo_eq (h : Delivered m t) {address : UnixAddress} {k : EndpointIndex}
    (hk : findBound address t = some k) :
    ∃ handle, Names t handle k ∧ m.boundTo address = some handle := by
  obtain ⟨hocc, hbd, haddr⟩ := findBound_eq_some hk
  obtain ⟨handle, hnames⟩ := h.named k hocc
  exact ⟨handle, hnames, (h.boundTo address handle).mpr ⟨k, hnames, hbd, haddr⟩⟩

/-! ### An endpoint with the same name -/

/-- The endpoint keeps its identity and its address. -/
structure SameName (e e' : Endpoint) : Prop where
  owner : e'.owner = e.owner
  generation : e'.generation = e.generation
  address : e'.address = e.address
  bound : e'.bound = e.bound

section SameName

variable {i j : EndpointIndex} {e : Endpoint}

theorem SameName.at (h : SameName (t i) e) (j : EndpointIndex) :
    SameName (t j) (update t i e j) where
  owner := apply_update_of_eq h.owner j
  generation := apply_update_of_eq h.generation j
  address := apply_update_of_eq h.address j
  bound := apply_update_of_eq h.bound j

theorem occupied_update (hown : e.owner = (t i).owner) (j : EndpointIndex) :
    (update t i e j).occupied = (t j).occupied :=
  apply_update_of_eq (by rw [Endpoint.occupied, Endpoint.occupied, hown]) j

theorem names_update (hown : e.owner = (t i).owner) (hgen : e.generation = (t i).generation)
    {handle : ℕ} : Names (update t i e) handle j ↔ Names t handle j := by
  have hgen' := apply_update_of_eq hgen j
  have hocc' := occupied_update hown j
  constructor
  · rintro ⟨hdecd, hocc⟩
    exact ⟨by rwa [hgen'] at hdecd, by rwa [hocc'] at hocc⟩
  · rintro ⟨hdecd, hocc⟩
    exact ⟨by rwa [hgen'], by rwa [hocc']⟩

/-- The handle of a later endpoint in the slot. -/
theorem Names.ne_of_later {handle other generation : ℕ}
    (h : Names t handle i) (hdec : decode other = some (j, generation))
    (hlt : (t j).generation < generation) : other ≠ handle := by
  rintro rfl
  have heq := Option.some.inj (h.decoded.symm.trans hdec)
  obtain ⟨rfl, rfl⟩ := heq
  exact absurd hlt (lt_irrefl _)

/-- A message comes or goes at one handle. -/
theorem Delivered.setEndpoint (h : Delivered m t) (he : SameName (t i) e) {handle : ℕ}
    (hnames : Names t handle i) (haccounted : Accounted m' handle e)
    (hboundTo : m'.boundTo = m.boundTo) (haddr : m'.addressOf = m.addressOf)
    (hoth : ∀ other, other ≠ handle → m'.sent other = m.sent other ∧
      m'.received other = m.received other) : Delivered m' (update t i e) where
  live other j hj := by
    rw [names_update he.owner he.generation] at hj
    revert hj
    refine update_cases (fun hj => ?_) (fun j hji hj => ?_) j
    · rwa [hj.handle_inj hnames]
    · have hne : other ≠ handle := fun heq => hji (hj.unique (heq ▸ hnames))
      obtain ⟨hsent, hrecv⟩ := hoth other hne
      obtain ⟨hqueue, haddr', taken, hshows, hmsgs⟩ := h.live other j hj
      exact ⟨hqueue, by rw [haddr, haddr'], taken, by rwa [hrecv], by rwa [hsent]⟩
  gone other := by
    by_cases hne : other = handle
    · subst hne
      obtain ⟨taken, hshows, hmsgs⟩ := haccounted.messages
      exact ⟨taken, _, hshows, hmsgs⟩
    · obtain ⟨hsent, hrecv⟩ := hoth other hne
      rw [hsent, hrecv]
      exact h.gone other
  unborn other j generation hdec hlt := by
    rw [(he.at j).generation] at hlt
    obtain ⟨hsent, hrecv⟩ := hoth other (hnames.ne_of_later hdec hlt)
    rw [hsent, hrecv, haddr]
    exact h.unborn other j generation hdec hlt
  boundTo address other := by
    rw [hboundTo, h.boundTo]
    refine exists_congr fun j => ?_
    rw [names_update he.owner he.generation, (he.at j).bound, (he.at j).address]
  named j hj := by
    rw [occupied_update he.owner] at hj
    obtain ⟨other, hoth⟩ := h.named j hj
    exact ⟨other, (names_update he.owner he.generation).mpr hoth⟩
  distinct j k hj hk hboundj hboundk heq := by
    rw [occupied_update he.owner] at hj hk
    rw [(he.at j).bound] at hboundj
    rw [(he.at k).bound] at hboundk
    rw [(he.at j).address, (he.at k).address] at heq
    exact h.distinct j k hj hk hboundj hboundk heq

end SameName

/-! ### The calls -/

variable {handle : ℕ} {owner : ProcessHandle}

theorem Delivered.send (h : Delivered m t) {i k : EndpointIndex} {destination : UnixAddress}
    {input : List UInt8} (hi : Names t handle i)
    (hk : findBound destination t = some k) (hroom : (t k).queue.length < maximumQueueLength) :
    Delivered
      (m.send destination { sender := owner, senderAddress := m.addressOf handle, bytes := input })
      (update t k
        ((t k).delivered
          { sender := owner, senderAddress := (t i).senderAddress, bytes := input })) := by
  obtain ⟨target, htgt, hbd⟩ := h.boundTo_eq hk
  obtain ⟨hqueue, haddr, taken, hshows, hmsgs⟩ := h.live target k htgt
  rw [Mail.send, hbd, (h.live handle i hi).address]
  refine h.setEndpoint ⟨rfl, rfl, rfl, rfl⟩ htgt ⟨hqueue.push _ hroom, haddr, taken, hshows, ?_⟩
    rfl rfl fun other hne => ⟨update_of_ne hne _ _, rfl⟩
  have hwait (d : Datagram) : ((t k).delivered d).waiting = (t k).waiting ++ [d] :=
    Ring.toList_push d hroom
  simp [hmsgs, hwait]

variable {i : EndpointIndex}

section

variable (h : Delivered m t)
include h

theorem Delivered.waiting_eq (hi : Names t handle i) (hlen : (t i).queue.length ≠ 0) :
    (t i).waiting = (t i).queue.cells (t i).queue.head :: (t i).consumed.waiting := by
  have hqueue := (h.live handle i hi).queue
  have hrest : (t i).consumed.waiting = (t i).waiting.drop 1 :=
    Ring.popMany_toList hqueue.head_lt (Nat.one_le_iff_ne_zero.mpr hlen)
  rw [hrest, Endpoint.waiting, Ring.toList_pop hqueue hlen Datagram.empty]
  rfl

theorem Delivered.receive {size : ℕ} (hi : Names t handle i) (hlen : (t i).queue.length ≠ 0) :
    Delivered (m.receive handle size (((t i).queue.cells (t i).queue.head).view size))
      (update t i (t i).consumed) := by
  obtain ⟨hqueue, haddr, taken, hshows, hmsgs⟩ := h.live handle i hi
  refine h.setEndpoint ⟨rfl, rfl, rfl, rfl⟩ hi ⟨hqueue.popMany 1, haddr,
    taken ++ [(t i).queue.cells (t i).queue.head], ?_, ?_⟩ rfl rfl
    fun other hne => ⟨rfl, update_of_ne hne _ _⟩
  · simp only [Mail.receive, update_self]
    exact List.rel_append hshows (.cons rfl .nil)
  · rw [List.append_assoc, List.singleton_append, ← h.waiting_eq hi hlen]
    exact hmsgs

theorem Delivered.bind {address : UnixAddress} (hi : Names t handle i)
    (hunbound : (t i).bound = false) (hfree : findBound address t = none) :
    Delivered (m.bind handle address) (update t i { t i with address, bound := true }) := by
  have hnames {other : ℕ} {j : EndpointIndex} :
      Names (update t i { t i with address, bound := true }) other j ↔ Names t other j :=
    names_update (by rfl) (by rfl)
  -- nobody else has the address
  have hnobody (j : EndpointIndex) (hj : (t j).occupied) (hbd : (t j).bound) :
      (t j).address ≠ address := by
    intro heq
    simpa [hj, hbd, heq] using position_none.mp hfree j
  refine { live := fun other j hj => ?_, gone := h.gone, unborn := fun other j g hdec hlt => ?_,
           boundTo := fun address' other => ?_, named := fun j hj => ?_, distinct := ?_ }
  · rw [hnames] at hj
    by_cases hji : j = i
    · subst hji
      obtain rfl := hj.handle_inj hi
      obtain ⟨hqueue, _, hmsgs⟩ := h.live other j hj
      rw [update_self]
      exact ⟨hqueue, by simp [Mail.bind, Endpoint.senderAddress], hmsgs⟩
    · have hne : other ≠ handle := fun heq => hji (hj.unique (heq ▸ hi))
      obtain ⟨hqueue, haddr, hmsgs⟩ := h.live other j hj
      rw [update_of_ne hji]
      exact ⟨hqueue, by simpa [Mail.bind, hne] using haddr, hmsgs⟩
  · have hgen : (update t i { t i with address, bound := true } j).generation =
        (t j).generation := apply_update_of_eq (by rfl) j
    rw [hgen] at hlt
    have hne := hi.ne_of_later hdec hlt
    obtain ⟨hsent, hrecv, haddr⟩ := h.unborn other j g hdec hlt
    exact ⟨hsent, hrecv, by simpa [Mail.bind, hne] using haddr⟩
  · by_cases haddr : address' = address
    · subst haddr
      simp only [Mail.bind, update_self, Option.some.injEq]
      constructor
      · rintro rfl
        exact ⟨i, hnames.mpr hi, by rw [update_self], by rw [update_self]⟩
      · rintro ⟨j, hj, hbd, heq⟩
        by_cases hji : j = i
        · subst hji
          exact hi.handle_inj (hnames.mp hj)
        · rw [update_of_ne hji] at hbd heq
          exact absurd heq (hnobody j (hnames.mp hj).occupied hbd)
    · simp only [Mail.bind, update_of_ne haddr]
      rw [h.boundTo]
      refine exists_congr fun j => ?_
      rw [hnames]
      by_cases hji : j = i
      · subst hji
        rw [update_self]
        constructor
        · rintro ⟨_, hbd, _⟩
          exact absurd (hunbound.symm.trans hbd) (by simp)
        · rintro ⟨_, _, heq⟩
          exact absurd heq.symm haddr
      · rw [update_of_ne hji]
  · obtain ⟨other, hoth⟩ := h.named j ((occupied_update (by rfl) j).symm.trans hj)
    exact ⟨other, hnames.mpr hoth⟩
  · intro j k
    refine update_cases ?_ (fun j _ => ?_) j <;> refine update_cases ?_ (fun k _ => ?_) k
    · exact fun _ _ _ _ _ => rfl
    · exact fun _ hk _ hbd heq => absurd heq.symm (hnobody k hk hbd)
    · exact fun hj _ hbd _ heq => absurd heq (hnobody j hj hbd)
    · exact h.distinct j k

/-- A slot is replaced that nobody is bound in afterwards. -/
theorem Delivered.replace {e : Endpoint}
    (hgen : (t i).generation ≤ e.generation) (hunbound : e.bound = false)
    (hnew : ∀ handle, Names (update t i e) handle i → Accounted m' handle e)
    (hnamed : e.occupied → ∃ handle, Names (update t i e) handle i)
    (hsent : m'.sent = m.sent) (hrecv : m'.received = m.received)
    (haddr : m'.addressOf = m.addressOf)
    (hboundTo : ∀ address handle, m'.boundTo address = some handle ↔
      m.boundTo address = some handle ∧ ¬ Names t handle i) :
    Delivered m' (update t i e) where
  live handle := by
    refine update_cases (hnew handle) fun j hji hj => ?_
    obtain ⟨hqueue, haddr', hmsgs⟩ := h.live handle j ((names_update_ne hji).mp hj)
    exact ⟨hqueue, by rw [haddr, haddr'], by rwa [hsent, hrecv]⟩
  gone handle := by
    rw [hsent, hrecv]
    exact h.gone handle
  unborn handle j g hdec hlt := by
    rw [hsent, hrecv, haddr]
    have hle : (t j).generation ≤ (update t i e j).generation :=
      update_cases hgen (fun _ _ => le_rfl) j
    exact h.unborn handle j g hdec (hle.trans_lt hlt)
  boundTo address handle := by
    rw [hboundTo, h.boundTo]
    constructor
    · rintro ⟨⟨j, hj, hbd, heq⟩, hnot⟩
      have hji : j ≠ i := fun hji => hnot (hji ▸ hj)
      exact ⟨j, (names_update_ne hji).mpr hj, by rwa [update_of_ne hji], by rwa [update_of_ne hji]⟩
    · rintro ⟨j, hj, hbd, heq⟩
      have hji : j ≠ i := by
        rintro rfl
        simp [update_self, hunbound] at hbd
      rw [names_update_ne hji] at hj
      rw [update_of_ne hji] at hbd heq
      exact ⟨⟨j, hj, hbd, heq⟩, fun hi => hji (hj.unique hi)⟩
  named := by
    refine update_cases hnamed fun j hji hj => ?_
    obtain ⟨handle, hhd⟩ := h.named j hj
    exact ⟨handle, (names_update_ne hji).mpr hhd⟩
  distinct j k hj hk hboundj hboundk heq := by
    have hoth {l : EndpointIndex} (hl : (update t i e l).bound) : update t i e l = t l := by
      refine update_of_ne ?_ _ _
      rintro rfl
      simp [update_self, hunbound] at hl
    have hj' := hoth hboundj
    have hk' := hoth hboundk
    rw [hj'] at hj hboundj heq
    rw [hk'] at hk hboundk heq
    exact h.distinct j k hj hk hboundj hboundk heq

theorem Delivered.create (hfree : (t i).occupied = false)
    (hdec : decode handle = some (i, (t i).generation + 1)) :
    Delivered m (update t i (fresh t i owner)) := by
  refine h.replace (Nat.le_succ _) rfl (fun other hoth => ?_) (fun hocc => ⟨handle, ?_, ?_⟩)
    rfl rfl rfl fun address other => ?_
  · have hdecd := hoth.decoded
    rw [update_self] at hdecd
    obtain ⟨hsent, hrecv, haddr⟩ := h.unborn other i _ hdecd (Nat.lt_succ_self _)
    refine ⟨Ring.bounded_empty (by decide) _, haddr, [], ?_, ?_⟩
    · rw [hrecv]
      exact .nil
    · rw [hsent]
      rfl
  · rw [update_self]
    exact hdec
  · rwa [update_self]
  · refine ⟨fun hbd => ⟨hbd, fun hnames => ?_⟩, fun hbd => hbd.1⟩
    exact Bool.noConfusion (hfree.symm.trans hnames.occupied)

theorem Delivered.close
    (hi : Names t handle i) : Delivered (m.close handle) (update t i (t i).closed) := by
  refine h.replace le_rfl rfl (fun other hoth => ?_) (nofun) rfl rfl rfl fun address other => ?_
  · have hocc := hoth.occupied
    rw [update_self] at hocc
    cases hocc
  · have hnames : Names t other i ↔ other = handle :=
      ⟨fun hoth => hoth.handle_inj hi, fun heq => heq ▸ hi⟩
    rw [hnames, Mail.close]
    simp

/-! ### Runs -/

theorem delivered_step {α : Type} (c : DatagramCall α) :
    Delivered (m.note c (exec _ c t).1) (exec _ c t).2 := by
  cases c with
  | create owner =>
    rcases create_cases (t := t) owner with ⟨e, heq⟩ | ⟨i, handle, hfree, _, hdec, heq⟩
      <;> rw [exec, heq]
    · exact h
    · exact h.create hfree hdec
  | bind owner handle address =>
    rcases bind_cases (t := t) owner handle address with ⟨e, heq⟩ | ⟨i, hi, hunbound, hfree, heq⟩
      <;> rw [exec, heq]
    · exact h
    · exact h.bind hi hunbound hfree
  | setPasscred owner handle enabled =>
    rcases setPasscred_cases (t := t) owner handle enabled with ⟨e, heq⟩ | ⟨i, hi, heq⟩
      <;> rw [exec, heq]
    · exact h
    · obtain ⟨hqueue, haddr, hmsgs⟩ := h.live handle i hi
      exact h.setEndpoint ⟨rfl, rfl, rfl, rfl⟩ hi ⟨hqueue, haddr, hmsgs⟩ rfl rfl
        fun _ _ => ⟨rfl, rfl⟩
  | send owner handle destination input flags =>
    rcases send_cases (t := t) owner handle destination input flags with
      ⟨e, heq⟩ | ⟨i, k, hi, hk, hroom, heq⟩ <;> rw [exec, heq]
    · exact h
    · exact h.send hi hk hroom
  | receive owner handle size flags =>
    rcases receive_cases (t := t) owner handle size flags with ⟨e, heq⟩ | ⟨i, hi, hlen, heq⟩
      <;> rw [exec, heq]
    · exact h
    by_cases hpeek : flags &&& msgPeek ≠ 0
    · simp only [Mail.note, if_pos hpeek]
      exact h
    · simp only [Mail.note, if_neg hpeek]
      exact h.receive hi hlen
  | close owner handle =>
    rcases close_cases (t := t) owner handle with ⟨e, heq⟩ | ⟨i, hi, heq⟩ <;> rw [exec, heq]
    · exact h
    · exact h.close hi
  | _ => exact h

end

theorem Delivers.delivered (h : Delivers m t) : Delivered m t := by
  induction h with
  | new => exact .new
  | call _ c ih => exact delivered_step ih c

/-- At every handle the received messages are the first that were sent to it, in order, each
once and with its sender; while the endpoint lives, the rest is in its queue. A look shows the
first message that waits and changes nothing. A send that succeeds takes the whole message to
the handle that is bound to the address; one that fails changes nothing, and a full queue makes
it fail. Live endpoints are bound to different addresses. -/
theorem datagrams_delivered (h : Delivers m t) :
    (∀ handle, ∃ taken rest, Shows (m.received handle) taken ∧ m.sent handle = taken ++ rest ∧
      ∀ i, Names t handle i → rest = (t i).waiting) ∧
    (∀ owner handle size flags, flags &&& msgPeek ≠ 0 → (receive owner handle size flags t).2 = t ∧
      ∀ d, (receive owner handle size flags t).1 = .ok d → ∃ i first rest,
        Names t handle i ∧ (t i).waiting = first :: rest ∧ d = first.view size) ∧
    (∀ owner handle destination input flags n,
      (send owner handle destination input flags t).1 = .ok n →
      n = input.length ∧ ∃ target, m.boundTo destination = some target) ∧
    (∀ owner handle destination input flags e,
      (send owner handle destination input flags t).1 = .error e →
      (send owner handle destination input flags t).2 = t) ∧
    (∀ owner handle destination input flags k, findBound destination t = some k →
      maximumQueueLength ≤ (t k).queue.length →
      ∃ e, send owner handle destination input flags t = (.error e, t)) ∧
    ∀ i j, (t i).occupied → (t j).occupied → (t i).bound →
      (t j).bound → (t i).address = (t j).address → i = j := by
  have hdeliv := h.delivered
  refine ⟨fun handle => ?_, fun owner handle size flags hpeek => ?_,
    fun owner handle destination input flags n hok => ?_,
    fun owner handle destination input flags e herr => ?_,
    fun owner handle destination input flags k hk hfull => ?_, hdeliv.distinct⟩
  · by_cases hlive : ∃ i, Names t handle i
    · obtain ⟨i, hi⟩ := hlive
      obtain ⟨_, _, taken, hshows, hmsgs⟩ := hdeliv.live handle i hi
      exact ⟨taken, _, hshows, hmsgs, fun j hj => by rw [hi.unique hj]⟩
    · obtain ⟨taken, rest, hshows, hmsgs⟩ := hdeliv.gone handle
      exact ⟨taken, rest, hshows, hmsgs, fun i hi => absurd ⟨i, hi⟩ hlive⟩
  · rcases receive_cases (t := t) owner handle size flags with ⟨e, heq⟩ | ⟨i, hi, hlen, heq⟩
    · rw [heq]
      exact ⟨rfl, nofun⟩
    · rw [heq, if_pos hpeek]
      refine ⟨rfl, fun d hd => ⟨i, _, _, hi, hdeliv.waiting_eq hi hlen, ?_⟩⟩
      exact (Except.ok.inj hd).symm
  · rcases send_cases (t := t) owner handle destination input flags with
      ⟨_, heq⟩ | ⟨_, k, _, hk, _, heq⟩
    · simp [heq] at hok
    · rw [heq] at hok
      obtain ⟨target, _, hbd⟩ := hdeliv.boundTo_eq hk
      exact ⟨(Except.ok.inj hok).symm, target, hbd⟩
  · rcases send_cases (t := t) owner handle destination input flags with
      ⟨_, heq⟩ | ⟨_, _, _, _, _, heq⟩
    · rw [heq]
    · simp [heq] at herr
  · rcases send_cases (t := t) owner handle destination input flags with
      hfailed | ⟨_, k', _, hk', hroom, _⟩
    · exact hfailed
    · obtain rfl := Option.some.inj (hk.symm.trans hk')
      omega

/-- A receiver is bound, and a sender without a name sends it one message. -/
def sampleCalls : List (Σ α, DatagramCall α) :=
  [⟨_, .create ⟨1, 1⟩⟩, ⟨_, .create ⟨2, 1⟩⟩, ⟨_, .bind ⟨1, 1⟩ 257 ⟨[65], by decide⟩⟩,
    ⟨_, .send ⟨2, 1⟩ 258 ⟨[65], by decide⟩ [1, 2, 3] 0⟩]

/-- The mail and the table after a list of calls. -/
def deliverAll (calls : List (Σ α, DatagramCall α)) : Mail × DatagramTable :=
  calls.foldl (fun x c => (x.1.note c.2 (exec _ c.2 x.2).1, (exec _ c.2 x.2).2))
    (.empty, fun _ => .empty)

theorem delivers_deliverAll (calls : List (Σ α, DatagramCall α)) :
    Delivers (deliverAll calls).1 (deliverAll calls).2 := by
  induction calls using List.reverseRecOn with
  | nil => exact .new
  | append_singleton calls c ih =>
    rw [deliverAll, List.foldl_concat]
    exact ih.call c.2

def sampleMail : Mail × DatagramTable := deliverAll (sampleCalls ++ [⟨_, .receive ⟨1, 1⟩ 257 2 0⟩])

/-- One message, read into a buffer that is too small for it. -/
theorem datagrams_delivered_one :
    (sampleMail.1.received 257).map (fun x => (x.1, x.2.bytes, x.2.truncated)) =
      [(2, [1, 2], true)] ∧
    ∃ taken rest, Shows (sampleMail.1.received 257) taken ∧
      sampleMail.1.sent 257 = taken ++ rest := by
  refine ⟨by decide +kernel, ?_⟩
  obtain ⟨taken, rest, hshows, hsent, _⟩ :=
    (datagrams_delivered (delivers_deliverAll
      (sampleCalls ++ [⟨_, .receive ⟨1, 1⟩ 257 2 0⟩]))).1 257
  exact ⟨taken, rest, hshows, hsent⟩

/-- Of the one message that was sent, a look and a receive both return the bytes. -/
theorem datagram_returned_twice :
    let x := deliverAll sampleCalls
    let look := receive ⟨1, 1⟩ 257 2 msgPeek x.2
    (x.1.sent 257).map (·.bytes) = [[1, 2, 3]] ∧
      [look.1, (receive ⟨1, 1⟩ 257 2 0 look.2).1].map (·.toOption.map (·.bytes)) =
        [some [1, 2], some [1, 2]] := by
  decide +kernel

end ArachKernel.LinuxDatagram
