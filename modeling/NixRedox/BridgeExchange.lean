import NixRedox.StepRuns
import NixRedox.StringSplits
import NixRedox.SystemFreshIds

set_option autoImplicit false

/- The exchange of requests and responses over the shared directory: guest calls
(`bridge.rs`, `bridge_build.rs`) and the host daemon (`build-bridge.nix`). -/
namespace NixRedox.Bridge

open StepRuns (EachMeets Throughout eachMeets_cons eachMeets_nil runAll throughout_of_eachMeets)
open StringSplits (last_segment)

section Files

/-- What a guest call asks for: a rebuild with a configuration, the build of a flake
attribute, or of a derivation with the outputs that are expected of it. -/
inductive Kind where
  | rebuild (config : String)
  | attr (path : String)
  | drv (aterm name : String) (expectedOutputs : List (String × String))
  deriving DecidableEq, Repr

/-- `BridgeRequest` and `DrvBuildRequest`. -/
inductive Request where
  | rebuild (requestId config : String)
  | build (requestType requestId : String) (attr drvAterm drvName : Option String)
      (expectedOutputs : List (String × String))
  deriving DecidableEq, Repr

/-- A response file, with the fields of `BridgeResponse` and of `DrvBuildResponse`. -/
structure Response where
  status : String
  requestId : String
  manifest : Option String
  outputs : List (String × String)
  error : Option String
  buildTimeMs : Option Nat
  deriving DecidableEq, Repr

/-- The response the host has written, and the request it has computed it from. -/
structure Answer where
  origin : Request
  response : Response
  deriving DecidableEq, Repr

/-- The part of an identifier that comes from a name. -/
def safeName (name : String) : String :=
  String.ofList (name.toList.map fun c => if c.isAlphanum || c = '-' then c else '_')

/-- `generate_request_id`. -/
def generateRequestId (pid : UInt32) : String := "rebuild-" ++ toString pid.toNat

/-- `generate_build_id`. -/
def generateBuildId (name : String) (pid : UInt32) : String :=
  "build-" ++ safeName name ++ "-" ++ toString pid.toNat

def Kind.requestId (pid : UInt32) : Kind → String
  | .rebuild _ => generateRequestId pid
  | .attr path => generateBuildId path pid
  | .drv _ name _ => generateBuildId name pid

/-- The contents of the request file. -/
def Kind.request (kind : Kind) (pid : UInt32) : Request :=
  match kind with
  | .rebuild config => .rebuild (kind.requestId pid) config
  | .attr path => .build "build-attr" (kind.requestId pid) (some path) none none []
  | .drv aterm name expectedOutputs =>
      .build "build-drv" (kind.requestId pid) none (some aterm) (some name) expectedOutputs

end Files

section Steps

/-- A call waits for its response, or has accepted one. -/
inductive Phase where
  | polling
  | accepted (answer : Answer)
  deriving DecidableEq, Repr

structure GuestCall where
  kind : Kind
  phase : Phase
  deriving DecidableEq, Repr

/-- The request the daemon is working on, and whether it has written the response. -/
structure Taken where
  requestId : String
  request : Request
  answered : Bool
  deriving DecidableEq, Repr

/-- The files `requests/<id>.json` and `responses/<id>.json` by their identifiers, the calls by
the processes that make them, and the daemon. -/
structure State where
  requests : AList fun _ : String => Request
  responses : AList fun _ : String => Answer
  calls : AList fun _ : UInt32 => GuestCall
  host : Option Taken

inductive Event where
  /-- A process writes its request. -/
  | send (pid : UInt32) (kind : Kind)
  /-- A polling call reads a response. -/
  | accept (pid : UInt32)
  /-- A polling call gives up; the call for a build may remove its request. -/
  | timeOut (pid : UInt32) (removed : Bool)
  /-- A call that has accepted a response ends, and may remove it. -/
  | finish (pid : UInt32) (removed : Bool)
  /-- A call ends at any other exit. -/
  | exit (pid : UInt32)
  | reboot
  /-- The daemon reads a request file. -/
  | take (requestId : String)
  /-- The daemon writes its response. -/
  | answer (status : String) (manifest : Option String) (outputs : List (String × String))
      (error : Option String) (buildTimeMs : Option Nat)
  /-- The daemon moves the request file away. -/
  | cleanUp

/-- A process that ends leaves its number to others. -/
def step (state : State) : Event → Option State
  | .send pid kind =>
      if pid ∈ state.calls then
        none
      else
        some { state with
          requests := state.requests.insert (kind.requestId pid) (kind.request pid)
          calls := state.calls.insert pid ⟨kind, .polling⟩ }
  | .accept pid =>
      match state.calls.lookup pid with
      | some ⟨kind, .polling⟩ =>
          (state.responses.lookup (kind.requestId pid)).map fun answer =>
            { state with calls := state.calls.insert pid ⟨kind, .accepted answer⟩ }
      | _ => none
  | .timeOut pid removed =>
      match state.calls.lookup pid with
      | some ⟨.rebuild _, .polling⟩ => some { state with calls := state.calls.erase pid }
      | some ⟨kind, .polling⟩ =>
          some { state with
            requests :=
              if removed then state.requests.erase (kind.requestId pid) else state.requests
            calls := state.calls.erase pid }
      | _ => none
  | .finish pid removed =>
      match state.calls.lookup pid with
      | some ⟨kind, .accepted _⟩ =>
          some { state with
            responses :=
              if removed then state.responses.erase (kind.requestId pid) else state.responses
            calls := state.calls.erase pid }
      | _ => none
  | .exit pid => some { state with calls := state.calls.erase pid }
  | .reboot => some { state with calls := ∅ }
  | .take requestId =>
      match state.host, state.requests.lookup requestId with
      | none, some request => some { state with host := some ⟨requestId, request, false⟩ }
      | _, _ => none
  | .answer status manifest outputs error buildTimeMs =>
      match state.host with
      | some ⟨requestId, request, false⟩ =>
          some { state with
            responses := state.responses.insert requestId
              ⟨request, ⟨status, requestId, manifest, outputs, error, buildTimeMs⟩⟩
            host := some ⟨requestId, request, true⟩ }
      | _ => none
  | .cleanUp =>
      match state.host with
      | some ⟨requestId, _, true⟩ =>
          some { state with requests := state.requests.erase requestId, host := none }
      | _ => none

/-- Every accepted response that reports success was computed from the request of the call
that accepted it. -/
def Matches (state : State) : Prop :=
  ∀ pid kind answer, state.calls.lookup pid = some ⟨kind, .accepted answer⟩ →
    answer.response.status = "success" → answer.origin = kind.request pid

/-- No request is sent under an identifier at which a success of another request lies, or for
which the daemon is working on another request. -/
def Unshared (state : State) : Event → Prop
  | .send pid kind =>
      (∀ answer, state.responses.lookup (kind.requestId pid) = some answer →
        answer.response.status = "success" → answer.origin = kind.request pid) ∧
      ∀ request, state.host = some ⟨kind.requestId pid, request, false⟩ →
        request = kind.request pid
  | _ => True

end Steps

section Identifiers

theorem dash_notMem_pid (pid : UInt32) : '-' ∉ (toString pid.toNat).toList := by
  intro inside
  rw [Nat.toString_eq_repr, Nat.toList_repr] at inside
  have digit := Nat.isDigit_of_mem_toDigits (by omega) (by omega) inside
  exact absurd digit (by decide)

theorem requestId_ends (pid : UInt32) (kind : Kind) :
    ∃ front, (kind.requestId pid).toList = front ++ '-' :: (toString pid.toNat).toList := by
  cases kind with
  | rebuild config =>
      refine ⟨"rebuild".toList, ?_⟩
      rw [Kind.requestId, generateRequestId, String.toList_append]
      rfl
  | attr path =>
      refine ⟨"build-".toList ++ (safeName path).toList, ?_⟩
      rw [Kind.requestId, generateBuildId, String.toList_append, String.toList_append,
        String.toList_append, List.append_assoc]
      rfl
  | drv aterm name outputs =>
      refine ⟨"build-".toList ++ (safeName name).toList, ?_⟩
      rw [Kind.requestId, generateBuildId, String.toList_append, String.toList_append,
        String.toList_append, List.append_assoc]
      rfl

/-- Two processes never share an identifier. -/
theorem requestId_pid {pid other : UInt32} {kind another : Kind}
    (same : kind.requestId pid = another.requestId other) : pid = other := by
  obtain ⟨front, ends⟩ := requestId_ends pid kind
  obtain ⟨frontToo, endsToo⟩ := requestId_ends other another
  rw [same, endsToo] at ends
  have digits := (last_segment (dash_notMem_pid pid) (dash_notMem_pid other) ends.symm).2
  exact System.dirName_injective (String.toList_inj.mp digits)

end Identifiers

section Runs

variable {state next : State}

/-- Nothing at the identifier of a polling call belongs to another request. -/
structure Undisturbed (state : State) : Prop where
  responses : ∀ pid kind answer, state.calls.lookup pid = some ⟨kind, .polling⟩ →
    state.responses.lookup (kind.requestId pid) = some answer →
      answer.response.status = "success" → answer.origin = kind.request pid
  host : ∀ pid kind request, state.calls.lookup pid = some ⟨kind, .polling⟩ →
    state.host = some ⟨kind.requestId pid, request, false⟩ → request = kind.request pid
  requests : ∀ pid kind request, state.calls.lookup pid = some ⟨kind, .polling⟩ →
    state.requests.lookup (kind.requestId pid) = some request → request = kind.request pid
  accepted : Matches state

theorem lookup_erase_some {α β : Type} [DecidableEq α] {map : AList fun _ : α => β} {key other : α}
    {value : β} (found : (map.erase key).lookup other = some value) :
    other ≠ key ∧ map.lookup other = some value := by
  have apart : other ≠ key := by
    rintro rfl
    rw [AList.lookup_erase] at found
    cases found
  rw [AList.lookup_erase_ne apart] at found
  exact ⟨apart, found⟩

/-- With fewer calls and fewer files everything stays undisturbed. -/
theorem Undisturbed.fewer (undisturbed : Undisturbed state)
    (calls : ∀ pid call, next.calls.lookup pid = some call → state.calls.lookup pid = some call)
    (responses : ∀ key answer, next.responses.lookup key = some answer →
      state.responses.lookup key = some answer)
    (requests : ∀ key request, next.requests.lookup key = some request →
      state.requests.lookup key = some request)
    (host : ∀ key request, next.host = some ⟨key, request, false⟩ →
      state.host = some ⟨key, request, false⟩) : Undisturbed next where
  responses pid kind answer call found :=
    undisturbed.responses pid kind answer (calls _ _ call) (responses _ _ found)
  host pid kind request call taken :=
    undisturbed.host pid kind request (calls _ _ call) (host _ _ taken)
  requests pid kind request call found :=
    undisturbed.requests pid kind request (calls _ _ call) (requests _ _ found)
  accepted pid kind answer call := undisturbed.accepted pid kind answer (calls _ _ call)

/-- A call that is sent after the others does not get in their way. -/
theorem send_undisturbed {pid : UInt32} {kind : Kind} (undisturbed : Undisturbed state)
    (unshared : Unshared state (.send pid kind)) (free : pid ∉ state.calls) :
    Undisturbed { state with
      requests := state.requests.insert (kind.requestId pid) (kind.request pid)
      calls := state.calls.insert pid ⟨kind, .polling⟩ } := by
  have others : ∀ other call, (state.calls.insert pid ⟨kind, .polling⟩).lookup other = some call →
      (other = pid ∧ call = ⟨kind, .polling⟩) ∨
        (other ≠ pid ∧ state.calls.lookup other = some call) := by
    intro other call found
    by_cases own : other = pid
    · subst own
      rw [AList.lookup_insert] at found
      cases found
      exact .inl ⟨rfl, rfl⟩
    · rw [AList.lookup_insert_ne own] at found
      exact .inr ⟨own, found⟩
  constructor
  · intro other another answer call found
    rcases others other _ call with ⟨rfl, same⟩ | ⟨apart, call⟩
    · cases same
      exact unshared.1 answer found
    · exact undisturbed.responses other another answer call found
  · intro other another request call taken
    rcases others other _ call with ⟨rfl, same⟩ | ⟨apart, call⟩
    · cases same
      exact unshared.2 request taken
    · exact undisturbed.host other another request call taken
  · intro other another request call found
    rcases others other _ call with ⟨rfl, same⟩ | ⟨apart, call⟩
    · cases same
      rw [AList.lookup_insert] at found
      exact (Option.some.inj found).symm
    · rw [AList.lookup_insert_ne (fun same => apart (requestId_pid same))] at found
      exact undisturbed.requests other another request call found
  · intro other another answer call
    rcases others other _ call with ⟨_, same⟩ | ⟨apart, call⟩
    · cases same
    · exact undisturbed.accepted other another answer call

theorem accept_undisturbed {pid : UInt32} {kind : Kind} {answer : Answer}
    (undisturbed : Undisturbed state) (call : state.calls.lookup pid = some ⟨kind, .polling⟩)
    (found : state.responses.lookup (kind.requestId pid) = some answer) :
    Undisturbed { state with calls := state.calls.insert pid ⟨kind, .accepted answer⟩ } := by
  have polling : ∀ other another,
      (state.calls.insert pid ⟨kind, .accepted answer⟩).lookup other = some ⟨another, .polling⟩ →
        state.calls.lookup other = some ⟨another, .polling⟩ := by
    intro other another here
    by_cases own : other = pid
    · subst own
      rw [AList.lookup_insert] at here
      cases here
    · rwa [AList.lookup_insert_ne own] at here
  constructor
  · intro other another response here
    exact undisturbed.responses other another response (polling other another here)
  · intro other another request here
    exact undisturbed.host other another request (polling other another here)
  · intro other another request here
    exact undisturbed.requests other another request (polling other another here)
  · intro other another response here
    by_cases own : other = pid
    · subst own
      rw [AList.lookup_insert] at here
      cases here
      exact undisturbed.responses other kind answer call found
    · rw [AList.lookup_insert_ne own] at here
      exact undisturbed.accepted other another response here

/-- The daemon works on what it has read. -/
theorem take_undisturbed {requestId : String} {request : Request}
    (undisturbed : Undisturbed state) (found : state.requests.lookup requestId = some request) :
    Undisturbed { state with host := some ⟨requestId, request, false⟩ } where
  responses := undisturbed.responses
  host pid kind other call taken := by
    cases taken
    exact undisturbed.requests pid kind request call found
  requests := undisturbed.requests
  accepted := undisturbed.accepted

theorem answer_undisturbed {requestId : String} {request : Request} {response : Response}
    (undisturbed : Undisturbed state) (taken : state.host = some ⟨requestId, request, false⟩) :
    Undisturbed { state with
      responses := state.responses.insert requestId ⟨request, response⟩
      host := some ⟨requestId, request, true⟩ } where
  responses pid kind answer call found success := by
    by_cases own : kind.requestId pid = requestId
    · subst own
      rw [AList.lookup_insert] at found
      cases found
      exact undisturbed.host pid kind request call taken
    · rw [AList.lookup_insert_ne own] at found
      exact undisturbed.responses pid kind answer call found success
  host pid kind other call same := by cases same
  requests := undisturbed.requests
  accepted := undisturbed.accepted

theorem step_undisturbed {event : Event} (undisturbed : Undisturbed state)
    (unshared : Unshared state event) (stepped : step state event = some next) :
    Undisturbed next := by
  cases event with
  | send pid kind =>
      simp only [step] at stepped
      split at stepped
      · cases stepped
      · rename_i free
        cases stepped
        exact send_undisturbed undisturbed unshared free
  | accept pid =>
      simp only [step] at stepped
      split at stepped
      · rename_i kind call
        obtain ⟨answer, found, rfl⟩ := Option.map_eq_some_iff.mp stepped
        exact accept_undisturbed undisturbed call found
      · cases stepped
  | timeOut pid removed =>
      simp only [step] at stepped
      split at stepped
      · cases stepped
        exact undisturbed.fewer (fun _ _ found => (lookup_erase_some found).2)
          (fun _ _ => id) (fun _ _ => id) (fun _ _ => id)
      · cases stepped
        refine undisturbed.fewer (fun _ _ found => (lookup_erase_some found).2)
          (fun _ _ => id) ?_ (fun _ _ => id)
        intro key request found
        cases removed with
        | true => exact (lookup_erase_some found).2
        | false => exact found
      · cases stepped
  | finish pid removed =>
      simp only [step] at stepped
      split at stepped
      · cases stepped
        refine undisturbed.fewer (fun _ _ found => (lookup_erase_some found).2) ?_
          (fun _ _ => id) (fun _ _ => id)
        intro key answer found
        cases removed with
        | true => exact (lookup_erase_some found).2
        | false => exact found
      · cases stepped
  | exit pid =>
      cases stepped
      exact undisturbed.fewer (fun _ _ found => (lookup_erase_some found).2)
        (fun _ _ => id) (fun _ _ => id) (fun _ _ => id)
  | reboot =>
      cases stepped
      refine undisturbed.fewer ?_ (fun _ _ => id) (fun _ _ => id) (fun _ _ => id)
      intro pid call found
      cases found
  | take requestId =>
      simp only [step] at stepped
      split at stepped
      · rename_i request idle found
        cases stepped
        exact take_undisturbed undisturbed found
      · cases stepped
  | answer status manifest outputs error buildTimeMs =>
      simp only [step] at stepped
      split at stepped
      · rename_i requestId request taken
        cases stepped
        exact answer_undisturbed undisturbed taken
      · cases stepped
  | cleanUp =>
      simp only [step] at stepped
      split at stepped
      · cases stepped
        refine undisturbed.fewer (fun _ _ => id) (fun _ _ => id)
          (fun _ _ found => (lookup_erase_some found).2) ?_
        intro key request taken
        cases taken
      · cases stepped

theorem unshared_matches {start : State} {events : List Event} (idle : start.calls = ∅)
    (unshared : EachMeets step Unshared start events) :
    Throughout step Matches start events := by
  have undisturbed : Undisturbed start := by
    have noCall : ∀ pid call, start.calls.lookup pid ≠ some call := by
      intro pid call found
      rw [idle] at found
      cases found
    exact ⟨fun _ _ _ call => absurd call (noCall _ _), fun _ _ _ call => absurd call (noCall _ _),
      fun _ _ _ call => absurd call (noCall _ _), fun _ _ _ call => absurd call (noCall _ _)⟩
  have always : Throughout step Undisturbed start events := by
    refine throughout_of_eachMeets ?_ undisturbed unshared
    intro state event next before apart stepped
    exact step_undisturbed before apart stepped
  intro done rest reached split run
  exact (always done rest reached split run).accepted

/-- A polling call takes the success that it finds at its identifier. -/
theorem accept_mismatch {pid : UInt32} {kind : Kind} {answer : Answer}
    (call : state.calls.lookup pid = some ⟨kind, .polling⟩)
    (found : state.responses.lookup (kind.requestId pid) = some answer)
    (success : answer.response.status = "success") (foreign : answer.origin ≠ kind.request pid) :
    ∃ reached, step state (.accept pid) = some reached ∧ ¬ Matches reached := by
  refine ⟨{ state with calls := state.calls.insert pid ⟨kind, .accepted answer⟩ }, ?_, ?_⟩
  · simp only [step, call, found, Option.map_some]
  · intro good
    exact foreign (good pid kind answer (AList.lookup_insert _) success)

theorem send_ok {pid : UInt32} {kind : Kind} (sent : step state (.send pid kind) = some next) :
    next.calls.lookup pid = some ⟨kind, .polling⟩ ∧ next.responses = state.responses ∧
      next.host = state.host := by
  simp only [step] at sent
  split at sent
  · cases sent
  · cases sent
    exact ⟨AList.lookup_insert _, rfl, rfl⟩

/-- After a request under an identifier that belongs to another one, the wrong response can be
accepted. -/
theorem shared_mismatch {pid : UInt32} {kind : Kind}
    (sent : step state (.send pid kind) = some next)
    (shared : ¬ Unshared state (.send pid kind)) :
    ∃ events reached, runAll step next events = some reached ∧ ¬ Matches reached := by
  obtain ⟨call, responses, host⟩ := send_ok sent
  rw [Unshared, not_and_or] at shared
  rcases shared with stale | busy
  · push Not at stale
    obtain ⟨answer, found, success, foreign⟩ := stale
    rw [← responses] at found
    obtain ⟨reached, accepted, mismatch⟩ := accept_mismatch call found success foreign
    exact ⟨[.accept pid], reached, by rw [runAll, accepted]; rfl, mismatch⟩
  · push Not at busy
    obtain ⟨request, taken, foreign⟩ := busy
    rw [← host] at taken
    -- The daemon answers the old request while the new call is polling.
    have answered : step next (.answer "success" none [] none none) = some { next with
        responses := next.responses.insert (kind.requestId pid)
          ⟨request, ⟨"success", kind.requestId pid, none, [], none, none⟩⟩
        host := some ⟨kind.requestId pid, request, true⟩ } := by
      simp only [step, taken]
    let wrong : Answer := ⟨request, ⟨"success", kind.requestId pid, none, [], none, none⟩⟩
    let after : State := { next with
      responses := next.responses.insert (kind.requestId pid) wrong
      host := some ⟨kind.requestId pid, request, true⟩ }
    have found : after.responses.lookup (kind.requestId pid) = some wrong :=
      AList.lookup_insert _
    have polling : after.calls.lookup pid = some ⟨kind, .polling⟩ := call
    obtain ⟨reached, accepted, mismatch⟩ := accept_mismatch polling found rfl foreign
    refine ⟨[.answer "success" none [] none none, .accept pid], reached, ?_, mismatch⟩
    rw [runAll, answered, Option.bind_some, runAll, accepted]
    rfl

/-- In every run, from any files that earlier runs have left, in which no request is sent under
an identifier that still belongs to another one, the accepted responses match; and after every
request that is, the wrong response can be accepted. -/
theorem answers_match {start : State} (fresh : start.calls = ∅) :
    (∀ events, EachMeets step Unshared start events → Throughout step Matches start events) ∧
    ∀ (state next : State) (pid : UInt32) (kind : Kind), step state (.send pid kind) = some next →
      ¬ Unshared state (.send pid kind) →
        ∃ events reached, runAll step next events = some reached ∧ ¬ Matches reached :=
  ⟨fun _ => unshared_matches fresh, fun _ _ _ _ => shared_mismatch⟩

end Runs

section LateAnswers

/-- A shared directory without files. -/
def noFiles : State where
  requests := ∅
  responses := ∅
  calls := ∅
  host := none

/-- The first call gives up before the daemon answers, and its process number is used again. -/
def lateAnswer : List Event :=
  [.send 7 (.rebuild "hostname=red"), .timeOut 7 false, .take "rebuild-7",
    .answer "success" (some "hostname=red") [] none none, .cleanUp,
    .send 7 (.rebuild "hostname=blue"), .accept 7]

theorem lateAnswer_accepted :
    ∃ state, runAll step noFiles lateAnswer = some state ∧
      state.calls.lookup 7 = some ⟨.rebuild "hostname=blue", .accepted
        ⟨.rebuild "rebuild-7" "hostname=red",
          ⟨"success", "rebuild-7", some "hostname=red", [], none, none⟩⟩⟩ := by
  rw [← Option.map_eq_some_iff]
  decide +kernel

theorem late_answer_mismatch :
    ¬ ∀ events : List Event, Throughout step Matches noFiles events := by
  intro always
  obtain ⟨state, run, call⟩ := lateAnswer_accepted
  have good := always lateAnswer lateAnswer [] state (List.append_nil _) run
  have same := good 7 _ _ call rfl
  exact absurd same (by decide)

theorem answers_match_red :
    Throughout step Matches noFiles [.send 7 (.rebuild "hostname=red"), .take "rebuild-7",
      .answer "success" (some "hostname=red") [] none none, .accept 7] := by
  apply (@answers_match noFiles rfl).1
  rw [eachMeets_cons]
  constructor
  · constructor
    · intro answer found
      cases found
    · intro request taken
      cases taken
  · intro _ _
    simp only [eachMeets_cons, Unshared, true_and]
    intro _ _ _ _ _ _
    exact eachMeets_nil

end LateAnswers

end NixRedox.Bridge
