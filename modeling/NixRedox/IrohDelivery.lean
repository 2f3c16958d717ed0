import NixRedox.IrohBridge
import NixRedox.StepRuns

set_option autoImplicit false

/- What a confirmed message has come to. -/
namespace NixRedox.Irohd

section Claims

/-- What an exchange has put into the queues. -/
def Nodes.own (nodes : Nodes) (index : Nat) : List Push :=
  nodes.pushes.filter fun push => push.exchange = index

variable (node : String)

/-- Every confirmed message was put into the queue of the sending node, once and whole;
nothing else was put there. -/
structure Confirmed (nodes : Nodes) : Prop where
  delivered : ∀ index exchange, nodes.exchanges[index]? = some exchange →
    exchange.sender = .answered .ok → nodes.own index = [⟨index, node, exchange.data⟩]
  once : ∀ index, (nodes.own index).length ≤ 1
  whole : ∀ push ∈ nodes.pushes, ∃ exchange, nodes.exchanges[push.exchange]? = some exchange ∧
    push.peerId = node ∧ push.bytes = exchange.data
  queued : ∀ peerId, nodes.inbox peerId <:+
    (nodes.pushes.filter fun push => push.peerId = peerId).map Push.bytes

/-- Messages are not empty, and a connection knows the node it comes from. -/
def Admitted (_ : Nodes) : Event → Prop
  | .sendMessage _ _ data => data ≠ []
  | .incoming _ (.ok id) => id = some node
  | _ => True

/-- The wait for an ack does not end because the receiver gave the message up, nor by a
failure before the message is in the queue. -/
def Careful (nodes : Nodes) : Event → Prop
  | .sender index result => ∀ exchange, nodes.exchanges[index]? = some exchange →
      exchange.sender = .awaitingAck →
      match result with
      | .ok _ => exchange.ackClosed = true → exchange.readFailed = false
      | .error _ => ∃ push ∈ nodes.pushes, push.exchange = index
  | _ => True

end Claims

section Exchanges

variable {node : String} {index : Nat} {exchange next : Exchange} {own : List Push}

/-- Nothing has come of the message yet. -/
def Fresh (exchange : Exchange) (own : List Push) : Prop :=
  own = [] ∧ exchange.ackClosed = false ∧ exchange.readFailed = false

def Delivered (node : String) (index : Nat) (exchange : Exchange) (own : List Push) : Prop :=
  own = [⟨index, node, exchange.data⟩] ∧ exchange.readFailed = false

def GivenUp (exchange : Exchange) (own : List Push) : Prop :=
  own = [] ∧ exchange.readFailed = true

/-- What the stage of the receiver says about the message. -/
def Received (node : String) (index : Nat) (exchange : Exchange) (own : List Push) :
    AcceptStage → Prop
  | .incoming => Fresh exchange own ∧ exchange.taken = false
  | .accepting peerId => peerId = node ∧ (exchange.taken = false → Fresh exchange own)
  | .reading peerId => peerId = node ∧ Fresh exchange own ∧ exchange.taken = true
  | .pushing peerId buf =>
      peerId = node ∧ Fresh exchange own ∧ buf = exchange.data ∧ exchange.taken = true
  | .acking peerId => peerId = node ∧ Delivered node index exchange own ∧ exchange.taken = true
  | .ended => True

structure Settled (node : String) (index : Nat) (exchange : Exchange) (own : List Push) : Prop where
  content : exchange.data ≠ []
  fate : Fresh exchange own ∨ Delivered node index exchange own ∨ GivenUp exchange own
  received : Received node index exchange own exchange.receiver
  answered : exchange.sender = .answered .ok → Delivered node index exchange own

theorem settled_begin {nodeIdHex : String} {parsed : Except String Unit} {data : List UInt8}
    (content : data ≠ []) : Settled node index (Exchange.begin nodeIdHex parsed data) [] where
  content := content
  fate := .inl ⟨rfl, rfl, rfl⟩
  received := ⟨⟨rfl, rfl, rfl⟩, rfl⟩
  answered := by
    cases parsed <;> simp [Exchange.begin]

theorem send_kept {result : Except String Unit} (sent : exchange.send result = some next) :
    next.data = exchange.data ∧ next.receiver = exchange.receiver ∧
      next.taken = exchange.taken ∧ next.readFailed = exchange.readFailed ∧
      next.ackClosed = exchange.ackClosed := by
  unfold Exchange.send at sent
  split at sent
  case h_9 =>
      split at sent
      · cases sent
        exact ⟨rfl, rfl, rfl, rfl, rfl⟩
      · cases sent
  case h_11 => cases sent
  all_goals
    cases sent
    exact ⟨rfl, rfl, rfl, rfl, rfl⟩

/-- Only a wait for the ack ends in a confirmation. -/
theorem send_confirms {result : Except String Unit} (sent : exchange.send result = some next)
    (confirmed : next.sender = .answered .ok) :
    exchange.sender = .awaitingAck ∧ (result = .ok () → exchange.ackClosed = true) := by
  unfold Exchange.send at sent
  split at sent
  case h_9 waiting =>
      split at sent
      · rename_i closed
        exact ⟨waiting, fun _ => closed⟩
      · cases sent
  case h_10 waiting =>
      refine ⟨waiting, fun other => ?_⟩
      cases other
  case h_11 => cases sent
  all_goals
    cases sent
    cases confirmed

/-- What `send_message` does leaves the receiver's view of the message alone. -/
theorem received_congr {stage : AcceptStage} (data : next.data = exchange.data)
    (taken : next.taken = exchange.taken) (failed : next.readFailed = exchange.readFailed)
    (closed : next.ackClosed = exchange.ackClosed)
    (received : Received node index exchange own stage) : Received node index next own stage := by
  unfold Received Fresh Delivered at *
  rw [data, taken, failed, closed]
  exact received

theorem settled_send {result : Except String Unit}
    (settled : Settled node index exchange own) (sent : exchange.send result = some next)
    (careful : exchange.sender = .awaitingAck →
      match result with
      | .ok _ => exchange.ackClosed = true → exchange.readFailed = false
      | .error _ => own ≠ []) :
    Settled node index next own := by
  obtain ⟨content, fate, received, _⟩ := settled
  obtain ⟨data, receiver, taken, failed, closed⟩ := send_kept sent
  refine ⟨by rwa [data], ?_, ?_, ?_⟩
  · unfold Fresh Delivered GivenUp at *
    rw [data, failed, closed]
    exact fate
  · rw [receiver]
    exact received_congr data taken failed closed received
  · intro confirmed
    obtain ⟨waiting, shut⟩ := send_confirms sent confirmed
    have met := careful waiting
    unfold Delivered
    rw [data, failed]
    cases result with
    | ok _ =>
        rcases fate with fresh | delivered | given
        · rw [fresh.2.1] at shut
          cases shut rfl
        · exact delivered
        · rw [given.2] at met
          cases met (shut rfl)
    | error _ =>
        rcases fate with fresh | delivered | given
        · exact absurd fresh.1 met
        · exact delivered
        · exact absurd given.1 met

theorem settled_establish {remoteNodeId : Except String (Option String)}
    (settled : Settled node index exchange own)
    (known : ∀ id, remoteNodeId = .ok id → id = some node)
    (established : exchange.establish remoteNodeId = some next) :
    Settled node index next own := by
  obtain ⟨content, fate, received, answered⟩ := settled
  unfold Exchange.establish at established
  split at established
  · rename_i id stage
    rw [stage] at received
    cases established
    refine ⟨content, fate, ⟨?_, fun _ => received.1⟩, answered⟩
    rw [known id rfl, Option.getD_some]
  · cases established
    exact ⟨content, fate, trivial, answered⟩
  · cases established

/-- A read that fails gives the message up. -/
theorem settled_dropped {peerId : String} (settled : Settled node index exchange own)
    (reading : exchange.receiver = .reading peerId) :
    Settled node index { exchange with
      receiver := .accepting peerId, readFailed := true, ackClosed := true } own := by
  obtain ⟨content, _, received, answered⟩ := settled
  rw [reading] at received
  obtain ⟨peer, fresh, taken⟩ := received
  refine ⟨content, .inr (.inr ⟨fresh.1, rfl⟩), ⟨peer, ?_⟩, ?_⟩
  · intro untaken
    rw [show exchange.taken = false from untaken] at taken
    cases taken
  · intro confirmed
    have delivered := (answered confirmed).1
    rw [fresh.1] at delivered
    cases delivered

/-- The message in the queue, for the exchange it came from. -/
def putBy (index : Nat) (pushed : Option (String × List UInt8)) : List Push :=
  (pushed.map fun (peerId, buf) => (⟨index, peerId, buf⟩ : Push)).toList

theorem settled_accept {result : Except String Unit} {pushed : Option (String × List UInt8)}
    (settled : Settled node index exchange own)
    (accepted : exchange.accept result = some (next, pushed)) :
    Settled node index next (own ++ putBy index pushed) := by
  unfold putBy
  obtain ⟨content, fate, received, answered⟩ := id settled
  cases stage : exchange.receiver with
  | incoming =>
      simp only [Exchange.accept, stage] at accepted
      cases accepted
  | ended =>
      simp only [Exchange.accept, stage] at accepted
      cases accepted
  | accepting peerId =>
      rw [stage] at received
      cases result with
      | ok _ =>
          simp only [Exchange.accept, stage] at accepted
          split at accepted
          · rename_i available
            cases accepted
            have untaken : exchange.taken = false := by simpa using available.2
            have fresh := received.2 untaken
            simp only [Option.map_none, Option.toList_none, List.append_nil]
            exact ⟨content, .inl fresh, ⟨received.1, fresh, rfl⟩, answered⟩
          · cases accepted
      | error _ =>
          simp only [Exchange.accept, stage] at accepted
          cases accepted
          simp only [Option.map_none, Option.toList_none, List.append_nil]
          exact ⟨content, fate, trivial, answered⟩
  | reading peerId =>
      have dropped := settled_dropped settled stage
      rw [stage] at received
      cases result with
      | ok _ =>
          simp only [Exchange.accept, stage, readToEnd] at accepted
          split at accepted
          · split at accepted
            · rename_i buf read
              split at read
              · cases read
                cases accepted
                simp only [Option.map_none, Option.toList_none, List.append_nil]
                obtain ⟨peer, fresh, taken⟩ := received
                exact ⟨content, fate, ⟨peer, fresh, rfl, taken⟩, answered⟩
              · cases read
            · cases accepted
              simp only [Option.map_none, Option.toList_none, List.append_nil]
              exact dropped
          · cases accepted
      | error _ =>
          simp only [Exchange.accept, stage] at accepted
          cases accepted
          simp only [Option.map_none, Option.toList_none, List.append_nil]
          exact dropped
  | pushing peerId buf =>
      rw [stage] at received
      obtain ⟨rfl, fresh, rfl, taken⟩ := received
      simp only [Exchange.accept, stage, if_pos content] at accepted
      cases accepted
      have delivered : Delivered peerId index exchange [⟨index, peerId, exchange.data⟩] :=
        ⟨rfl, fresh.2.2⟩
      simp only [fresh.1, Option.map_some, Option.toList_some, List.nil_append]
      exact ⟨content, .inr (.inl delivered), ⟨rfl, delivered, taken⟩, fun _ => delivered⟩
  | acking peerId =>
      rw [stage] at received
      obtain ⟨peer, delivered, taken⟩ := received
      simp only [Exchange.accept, stage] at accepted
      cases accepted
      simp only [Option.map_none, Option.toList_none, List.append_nil]
      refine ⟨content, .inr (.inl delivered), ⟨peer, ?_⟩, answered⟩
      intro untaken
      rw [show exchange.taken = false from untaken] at taken
      cases taken

end Exchanges

section Nodes

variable {node : String} {nodes after : Nodes}

structure Sound (node : String) (nodes : Nodes) : Prop where
  each : ∀ index exchange, nodes.exchanges[index]? = some exchange →
    Settled node index exchange (nodes.own index)
  inside : ∀ push ∈ nodes.pushes, push.exchange < nodes.exchanges.length
  queued : ∀ peerId, nodes.inbox peerId <:+
    (nodes.pushes.filter fun push => push.peerId = peerId).map Push.bytes

theorem sound_new : Sound node Nodes.new where
  each := by
    intro index exchange found
    cases found
  inside := by
    intro push inside
    cases inside
  queued := by
    intro peerId
    exact List.suffix_refl []

theorem mem_own {index : Nat} {push : Push} :
    push ∈ nodes.own index ↔ push ∈ nodes.pushes ∧ push.exchange = index := by
  rw [Nodes.own, List.mem_filter, decide_eq_true_eq]

/-- An exchange that is not there has put nothing into the queues. -/
theorem Sound.own_outside (sound : Sound node nodes) {index : Nat}
    (outside : nodes.exchanges.length ≤ index) : nodes.own index = [] := by
  apply List.eq_nil_iff_forall_not_mem.mpr
  intro push mine
  obtain ⟨put, rfl⟩ := mem_own.mp mine
  exact absurd (sound.inside push put) (Nat.not_lt.mpr outside)

theorem confirmed_of_sound (sound : Sound node nodes) : Confirmed node nodes where
  delivered := by
    intro index exchange found confirmed
    exact ((sound.each index exchange found).answered confirmed).1
  once := by
    intro index
    by_cases inside : index < nodes.exchanges.length
    · have settled := sound.each index _ (List.getElem?_eq_getElem inside)
      rcases settled.fate with fresh | delivered | given
      · simp [fresh.1]
      · simp [delivered.1]
      · simp [given.1]
    · simp [sound.own_outside (Nat.le_of_not_lt inside)]
  whole := by
    intro push put
    have found := List.getElem?_eq_getElem (sound.inside push put)
    have mine : push ∈ nodes.own push.exchange := mem_own.mpr ⟨put, rfl⟩
    refine ⟨_, found, ?_⟩
    rcases (sound.each _ _ found).fate with fresh | delivered | given
    · rw [fresh.1] at mine
      cases mine
    · rw [delivered.1, List.mem_singleton] at mine
      exact ⟨congrArg Push.peerId mine, congrArg Push.bytes mine⟩
    · rw [given.1] at mine
      cases mine
  queued := sound.queued

theorem own_push (index other : Nat) (pushed : Option (String × List UInt8)) :
    (nodes.push index pushed).own other =
      nodes.own other ++ if other = index then putBy index pushed else [] := by
  cases pushed with
  | none => simp [Nodes.push, putBy]
  | some put =>
      by_cases same : other = index
      · simp [Nodes.push, Nodes.own, putBy, same, List.filter_append]
      · simp [Nodes.push, Nodes.own, same, List.filter_append, Ne.symm same]

/-- One exchange goes on, and may put its message into a queue. -/
theorem sound_update {index : Nat} {exchange next : Exchange}
    {pushed : Option (String × List UInt8)} (sound : Sound node nodes)
    (found : nodes.exchanges[index]? = some exchange)
    (settled : Settled node index next (nodes.own index ++ putBy index pushed)) :
    Sound node ((nodes.replace index next).push index pushed) := by
  have below : index < nodes.exchanges.length := (List.getElem?_eq_some_iff.mp found).1
  have exchanges : ((nodes.replace index next).push index pushed).exchanges =
      nodes.exchanges.set index next := by
    cases pushed <;> rfl
  constructor
  · intro other one at_other
    have own : (nodes.replace index next).own other = nodes.own other := rfl
    rw [exchanges] at at_other
    rw [own_push, own]
    by_cases same : other = index
    · subst same
      rw [List.getElem?_set_self below] at at_other
      cases at_other
      rw [if_pos rfl]
      exact settled
    · rw [List.getElem?_set_ne (Ne.symm same)] at at_other
      rw [if_neg same, List.append_nil]
      exact sound.each other one at_other
  · intro push put
    rw [exchanges, List.length_set]
    cases pushed with
    | none => exact sound.inside push put
    | some message =>
        rcases List.mem_append.mp put with earlier | new
        · exact sound.inside push earlier
        · rw [List.mem_singleton] at new
          rw [new]
          exact below
  · intro peerId
    cases pushed with
    | none => exact sound.queued peerId
    | some message =>
        obtain ⟨peer, buf⟩ := message
        show Function.update nodes.inbox peer (nodes.inbox peer ++ [buf]) peerId <:+
          ((nodes.pushes ++ [(⟨index, peer, buf⟩ : Push)]).filter fun push =>
            push.peerId = peerId).map Push.bytes
        rw [List.filter_append, List.map_append]
        obtain ⟨drained, whole⟩ := sound.queued peerId
        by_cases same : peerId = peer
        · subst same
          refine ⟨drained, ?_⟩
          rw [Function.update_self, ← List.append_assoc, whole]
          simp
        · rw [Function.update_of_ne same]
          refine ⟨drained, ?_⟩
          rw [whole]
          simp [Ne.symm same]

theorem sound_replace {index : Nat} {exchange next : Exchange} (sound : Sound node nodes)
    (found : nodes.exchanges[index]? = some exchange)
    (settled : Settled node index next (nodes.own index)) :
    Sound node (nodes.replace index next) := by
  have nothing : Settled node index next (nodes.own index ++ putBy index none) := by
    rwa [putBy, Option.map_none, Option.toList_none, List.append_nil]
  exact sound_update sound found nothing

theorem sound_begin {nodeIdHex : String} {parsed : Except String Unit} {data : List UInt8}
    (sound : Sound node nodes) (content : data ≠ []) :
    Sound node { nodes with
      exchanges := nodes.exchanges ++ [Exchange.begin nodeIdHex parsed data] } where
  each := by
    intro index exchange found
    by_cases last : index = nodes.exchanges.length
    · subst last
      rw [List.getElem?_concat_length] at found
      cases found
      have none : nodes.own nodes.exchanges.length = [] := sound.own_outside (Nat.le_refl _)
      show Settled node _ _ (nodes.own _)
      rw [none]
      exact settled_begin content
    · have inside : index < (nodes.exchanges ++ [Exchange.begin nodeIdHex parsed data]).length :=
        (List.getElem?_eq_some_iff.mp found).1
      rw [List.length_append, List.length_singleton] at inside
      have earlier : index < nodes.exchanges.length := by omega
      rw [List.getElem?_append_left earlier] at found
      exact sound.each index exchange found
  inside := by
    intro push put
    rw [List.length_append, List.length_singleton]
    exact Nat.lt_succ_of_lt (sound.inside push put)
  queued := sound.queued

theorem sound_step (event : Event) (sound : Sound node nodes) (admitted : Admitted node nodes event)
    (careful : Careful nodes event) (stepped : nodes.step event = some after) :
    Sound node after := by
  cases event with
  | sendMessage nodeIdHex parsed data =>
      unfold Nodes.step at stepped
      dsimp only at stepped
      split at stepped
      · cases stepped
        exact sound_begin sound admitted
      · cases stepped
  | sender index result =>
      obtain ⟨exchange, found, rest⟩ := Option.bind_eq_some_iff.mp stepped
      obtain ⟨next, sent, same⟩ := Option.bind_eq_some_iff.mp rest
      cases same
      apply sound_replace sound found
      apply settled_send (sound.each index exchange found) sent
      intro waiting
      have met := careful exchange found waiting
      cases result with
      | ok _ => exact met
      | error _ =>
          obtain ⟨push, put, mine⟩ := met
          exact List.ne_nil_of_mem (mem_own.mpr ⟨put, mine⟩)
  | incoming index remoteNodeId =>
      obtain ⟨exchange, found, rest⟩ := Option.bind_eq_some_iff.mp stepped
      obtain ⟨next, established, same⟩ := Option.bind_eq_some_iff.mp rest
      cases same
      apply sound_replace sound found
      apply settled_establish (sound.each index exchange found) _ established
      intro id known
      rw [known] at admitted
      exact admitted
  | receiver index result =>
      obtain ⟨exchange, found, rest⟩ := Option.bind_eq_some_iff.mp stepped
      obtain ⟨⟨next, pushed⟩, accepted, same⟩ := Option.bind_eq_some_iff.mp rest
      cases same
      exact sound_update sound found (settled_accept (sound.each index exchange found) accepted)
  | drainInbox nodeId =>
      cases stepped
      refine ⟨sound.each, sound.inside, ?_⟩
      intro peerId
      by_cases same : peerId = nodeId
      · subst same
        show Function.update nodes.inbox peerId [] peerId <:+ _
        rw [Function.update_self]
        exact List.nil_suffix
      · show Function.update nodes.inbox nodeId [] peerId <:+ _
        rw [Function.update_of_ne same]
        exact sound.queued peerId

theorem careful_of_stopped (event : Event) (stopped : nodes.step event = none) :
    Careful nodes event := by
  cases event with
  | sender index result =>
      intro exchange found waiting
      unfold Nodes.step at stopped
      simp only [found, Option.bind_eq_bind, Option.bind_some] at stopped
      cases result with
      | ok _ =>
          intro closed
          simp [Exchange.send, waiting, closed] at stopped
      | error _ => simp [Exchange.send, waiting] at stopped
  | _ => trivial

/-- The end of a wait for an ack answers `Ok`, and does nothing else. -/
theorem own_of_confirmed {index : Nat} {result : Except String Unit} {exchange : Exchange}
    (found : nodes.exchanges[index]? = some exchange) (waiting : exchange.sender = .awaitingAck)
    (stepped : nodes.step (.sender index result) = some after) (confirmed : Confirmed node after) :
    nodes.own index = [⟨index, node, exchange.data⟩] := by
  have below : index < nodes.exchanges.length := (List.getElem?_eq_some_iff.mp found).1
  have answered : after = nodes.replace index { exchange with sender := .answered .ok } := by
    unfold Nodes.step at stepped
    simp only [found, Option.bind_eq_bind, Option.bind_some, Exchange.send, waiting] at stepped
    cases result with
    | ok _ =>
        dsimp only at stepped
        split at stepped
        · exact (Option.some.inj stepped).symm
        · cases stepped
    | error _ => exact (Option.some.inj stepped).symm
  subst answered
  apply confirmed.delivered index { exchange with sender := .answered .ok }
  · exact List.getElem?_set_self below
  · rfl

theorem careful_of_confirmed (event : Event) (sound : Sound node nodes)
    (stepped : nodes.step event = some after) (confirmed : Confirmed node after) :
    Careful nodes event := by
  cases event with
  | sender index result =>
      intro exchange found waiting
      have own := own_of_confirmed found waiting stepped confirmed
      cases result with
      | ok _ =>
          intro closed
          rcases (sound.each index exchange found).fate with fresh | delivered | given
          · rw [fresh.2.1] at closed
            cases closed
          · exact delivered.2
          · rw [given.1] at own
            cases own
      | error _ =>
          have mine : ⟨index, node, exchange.data⟩ ∈ nodes.own index := by
            rw [own]
            exact List.mem_singleton_self _
          obtain ⟨put, same⟩ := mem_own.mp mine
          exact ⟨_, put, same⟩
  | _ => trivial

/-- A confirmed message was delivered exactly in the runs in which no wait for an ack is
ended by a receiver that gave the message up, or by a failure before the message was in the
queue: `send_message` does not look at how the wait ended. -/
theorem confirmed_delivered_iff (node : String) (events : List Event)
    (admitted : StepRuns.EachMeets Nodes.step (Admitted node) Nodes.new events) :
    StepRuns.Throughout Nodes.step (Confirmed node) Nodes.new events ↔
      StepRuns.EachMeets Nodes.step Careful Nodes.new events := by
  have stops : ∀ nodes event, Admitted node nodes event → nodes.step event = none →
      Careful nodes event := by
    intro nodes event _ stopped
    exact careful_of_stopped event stopped
  have decides : ∀ nodes event after, Sound node nodes → Admitted node nodes event →
      nodes.step event = some after → Confirmed node after → Careful nodes event := by
    intro nodes event after sound _ stepped confirmed
    exact careful_of_confirmed event sound stepped confirmed
  have keeps : ∀ nodes event after, Sound node nodes → Admitted node nodes event →
      Careful nodes event → nodes.step event = some after → Sound node after := by
    intro nodes event after sound admitted careful stepped
    exact sound_step event sound admitted careful stepped
  exact StepRuns.throughout_iff_of_invariant (fun _ => confirmed_of_sound) stops decides keeps
    sound_new admitted

def handedOver : List Event :=
  [.sendMessage "b" (.ok ()) [7], .sender 0 (.ok ()), .sender 0 (.ok ()), .sender 0 (.ok ()),
    .sender 0 (.ok ())]

def receivedAndAcked : List Event :=
  [.incoming 0 (.ok (some "a")), .receiver 0 (.ok ()), .receiver 0 (.ok ()), .receiver 0 (.ok ()),
    .receiver 0 (.ok ()), .sender 0 (.ok ())]

theorem acked_message_delivered :
    StepRuns.Throughout Nodes.step (Confirmed "a") Nodes.new (handedOver ++ receivedAndAcked) := by
  apply (confirmed_delivered_iff _ _ _).mpr
  · simp [handedOver, receivedAndAcked, StepRuns.eachMeets_cons, StepRuns.eachMeets_nil, Nodes.step,
      Nodes.new, Nodes.idle, Nodes.replace, Nodes.push, Exchange.begin, Exchange.send,
      Exchange.establish, Exchange.accept, readToEnd, maxMessage, Careful]
  · apply StepRuns.eachMeets_of_forall
    simp [handedOver, receivedAndAcked, Admitted]

/-- A connection lost before the message has arrived is confirmed as a delivery. -/
theorem lost_message_confirmed :
    ¬ ∀ (node : String) (events : List Event),
        StepRuns.EachMeets Nodes.step (Admitted node) Nodes.new events →
          StepRuns.Throughout Nodes.step (Confirmed node) Nodes.new events := by
  intro always
  let events := handedOver ++ [.sender 0 (.error "connection lost")]
  have admitted : StepRuns.EachMeets Nodes.step (Admitted "a") Nodes.new events := by
    apply StepRuns.eachMeets_of_forall
    simp [events, handedOver, Admitted]
  let sent : Exchange :=
    ⟨"b", [7], .answered .ok, .incoming, true, true, false, false, false⟩
  have ran : StepRuns.runAll Nodes.step Nodes.new events = some ⟨[sent], fun _ => [], []⟩ := rfl
  have confirmed := always "a" events admitted events [] _ (List.append_nil _) ran
  have delivered := confirmed.delivered 0 sent rfl rfl
  cases delivered

end Nodes

end NixRedox.Irohd
