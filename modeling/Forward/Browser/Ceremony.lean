import Forward.Browser.Registry
import Forward.Secrets.Broker

/-!
# The browser grant ceremony

`ceremony::answer`: redeem the receipt, mint a relay token, check the broker's authority, push the
token to the laptop, check again, and record the grant, beside all other threads of the registry.

`conducts` is not in the source: the ceremonies that came as far as `insert_if_authority`, with the
time of their REDEEM.
-/

namespace Forward.Browser

open Lib Secretsd

/-- A parsed GRANT line and what is known of the process that sent it. -/
structure Request where
  ttl : Nat
  receipt : List UInt8
  endpointPort : Nat
  pid : Nat
  anchor : Option ProcessAnchor
  upstream : Bool
  deriving DecidableEq

/-- A ceremony after its receipt was redeemed, at the time `redeemedAt` of the
broker. -/
structure Conduct where
  request : Request
  session : String
  anchor : ProcessAnchor
  redeemedAt : Nat
  redeemed : RedeemedGrant
  token : List UInt8
  deriving DecidableEq

def Conduct.ttl (c : Conduct) : Nat := min c.request.ttl c.redeemed.ttlSecs

/-- Where the ceremony stands. In `executed` the broker has answered REDEEM; in
`dated` the deadline is computed, if the sum fits into an instant; in `waiting`
it is inside `insert_if_authority`. -/
inductive Stage
  | idle
  | redeeming (request : Request) (session : String) (anchor : ProcessAnchor)
  | executed (request : Request) (session : String) (anchor : ProcessAnchor) (redeemedAt : Nat)
      (reply : Except BrokerError (String × SocketIdentity))
  | minting (request : Request) (session : String) (anchor : ProcessAnchor) (redeemedAt : Nat)
      (redeemed : RedeemedGrant)
  | checking (c : Conduct)
  | pushing (c : Conduct)
  | rechecking (c : Conduct)
  | dating (c : Conduct)
  | dated (c : Conduct) (now : Nat) (deadline : Option Nat)
  | waiting (t : Nat)
  | granted (id : Nat)
  | answered (line : String)
  | panicked

/-- A ceremony's call of `insert_if_authority`, and the time its deadline counts
from. -/
structure Conducted where
  t : Nat
  conduct : Conduct
  now : Nat
  deriving DecidableEq

structure Desk where
  registry : Registry
  stage : Stage
  conducts : List Conducted

/-- The registry's other calls, and the steps of the ceremony: what the
collaborators answer is handed in. -/
inductive DeskAction
  | registry (a : Action)
  | request (request : Request) (session : Option String)
  | execute (reply : Except BrokerError (String × SocketIdentity))
  | redeemed
  | mint (token : Option (List UInt8))
  | check (identity : Except BrokerError BrokerIdentity)
  | push (delivered : Bool)
  | date
  | insert (t control : Nat)
  | resume
  | reply (t : Nat) (written : Bool)
  | next

def Call.inserts : Call → Bool
  | .insertIfAuthority _ _ _ => true
  | _ => false

def authorityIsCurrent (identity : Except BrokerError BrokerIdentity)
    (redeemed : BrokerIdentity) : Bool :=
  match identity with
  | .ok current => current = redeemed
  | .error _ => false

namespace Desk

def goto (d : Desk) (stage : Stage) : Desk := { d with stage := stage }

def refuse (d : Desk) : Desk := d.goto (.answered "REFUSED\n")

def request (d : Desk) (r : Request) (session : Option String) : Desk :=
  match r.anchor with
  | none => d.goto (.answered "REFUSED ANCHOR\n")
  | some anchor =>
    if r.upstream then d.goto (.redeeming r (session.getD ("pid " ++ toString r.pid)) anchor)
    else d.goto (.answered "REFUSED UPSTREAM\n")

def insert (d : Desk) (t control : Nat) (c : Conduct) (now deadline : Nat) : Option Desk :=
  let grant : Grant := ⟨c.session, c.anchor, c.token, deadline, c.request.endpointPort⟩
  (d.registry.step (.call t (.insertIfAuthority c.redeemed.authority grant control))).map
    fun registry => ⟨registry, .waiting t, ⟨t, c, now⟩ :: d.conducts⟩

def step (d : Desk) : DeskAction → Option Desk
  | .registry (.call t call) =>
    if call.inserts then none
    else (d.registry.step (.call t call)).map fun registry => { d with registry := registry }
  | .registry a => (d.registry.step a).map fun registry => { d with registry := registry }
  | .request r session =>
    match d.stage with
    | .idle => some (d.request r session)
    | _ => none
  | .execute reply =>
    match d.stage with
    | .redeeming r session anchor =>
      some (d.goto (.executed r session anchor d.registry.clock reply))
    | _ => none
  | .redeemed =>
    match d.stage with
    | .executed r session anchor redeemedAt reply =>
      match redeem r.receipt capBrowser reply with
      | .error _ => some (d.goto (.answered "REFUSED RECEIPT\n"))
      | .ok redeemed => some (d.goto (.minting r session anchor redeemedAt redeemed))
    | _ => none
  | .mint token =>
    match d.stage, token with
    | .minting _ _ _ _ _, none => some d.refuse
    | .minting r session anchor redeemedAt redeemed, some token =>
      some (d.goto (.checking ⟨r, session, anchor, redeemedAt, redeemed, token⟩))
    | _, _ => none
  | .check identity =>
    match d.stage with
    | .checking c =>
      if authorityIsCurrent identity c.redeemed.authority then some (d.goto (.pushing c))
      else some d.refuse
    | .rechecking c =>
      if authorityIsCurrent identity c.redeemed.authority then some (d.goto (.dating c))
      else some d.refuse
    | _ => none
  | .push delivered =>
    match d.stage with
    | .pushing c =>
      if delivered then some (d.goto (.rechecking c))
      else some (d.goto (.answered "REFUSED LAPTOP\n"))
    | _ => none
  | .date =>
    match d.stage with
    | .dating c =>
      some (d.goto (.dated c d.registry.clock (checkedAdd d.registry.clock (fromSecs c.ttl))))
    | _ => none
  | .insert t control =>
    match d.stage with
    | .dated _ _ none => some (d.goto .panicked)
    | .dated c now (some deadline) => d.insert t control c now deadline
    | _ => none
  | .resume =>
    match d.stage with
    | .waiting t =>
      match d.registry.tasks t with
      | some (.returned (.inserted (some id))) => some (d.goto (.granted id))
      | some (.returned _) => some d.refuse
      | _ => none
    | _ => none
  | .reply t written =>
    match d.stage with
    | .granted id =>
      if written then some (d.goto (.answered "OK\n"))
      else
        (d.registry.step (.call t (.expire id))).map fun registry =>
          ⟨registry, .idle, d.conducts⟩
    | _ => none
  | .next =>
    match d.stage with
    | .answered _ => some (d.goto .idle)
    | _ => none

end Desk

def desk : System Desk DeskAction where
  init := ⟨registrySystem.init, .idle, []⟩
  step := Desk.step

theorem desk_step {d d' : Desk} {a : DeskAction} (h : desk.step d a = some d') :
    d.step a = some d' := h

/-! ## Which grant a call carries -/

def Task.carried : Task → Option (BrokerIdentity × Grant)
  | .inserting authority grant _ | .checked authority grant _ => some (authority, grant)
  | _ => none

namespace Registry

def Carries (r : Registry) (t : Nat) (a : BrokerIdentity) (grant : Grant) : Prop :=
  (∃ task, r.tasks t = some task ∧ task.carried = some (a, grant)) ∨
    ∃ id, .inserted t id a grant ∈ r.trail

variable {r r' : Registry}

variable {t : Nat} {a : BrokerIdentity} {grant : Grant}

theorem Carries.of_update {t' : Nat} {new : Task}
    (h : r'.Carries t a grant) (hTasks : r'.tasks = Function.update r.tasks t' (some new))
    (hNew : new.carried = none)
    (hTrail : ∀ t id a grant, .inserted t id a grant ∈ r'.trail →
      .inserted t id a grant ∈ r.trail) : r.Carries t a grant := by
  rcases h with ⟨task, hTask, hCarried⟩ | ⟨id, hIn⟩
  · rw [hTasks] at hTask
    rcases update_some_cases hTask with ⟨-, rfl⟩ | ⟨-, hOld⟩
    · cases hNew.symm.trans hCarried
    · exact .inl ⟨task, hOld, hCarried⟩
  · exact .inr ⟨id, hTrail t id a grant hIn⟩

variable {b : Action}

theorem carries_step (hMove : r.Move b r')
    (hCall : ∀ t call, b = .call t call → call.inserts = false)
    (h : r'.Carries t a grant) : r.Carries t a grant := by
  have hCons : ∀ {e : Event}, (∀ t id a grant, e ≠ .inserted t id a grant) →
      ∀ t id a grant, .inserted t id a grant ∈ e :: r.trail → .inserted t id a grant ∈ r.trail := by
    intro e he t id a grant hIn
    rcases List.mem_cons.mp hIn with hEq | hIn
    · exact absurd hEq.symm (he t id a grant)
    · exact hIn
  cases hMove with
  | @call t' call =>
    have hNot := hCall t' call rfl
    refine h.of_update rfl ?_ fun _ _ _ _ hIn => hIn
    cases call with
    | insertIfAuthority => cases hNot
    | _ => rfl
  | tick => exact h
  | @insertChecked t' cloned authority grant' control hTask =>
    rcases h with ⟨task, hTask', hCarried⟩ | hIn
    · rcases update_some_cases hTask' with ⟨rfl, rfl⟩ | ⟨-, hOld⟩
      · exact .inl ⟨_, hTask, hCarried⟩
      · exact .inl ⟨task, hOld, hCarried⟩
    · exact .inr hIn
  | @inserted t' authority grant' control hTask =>
    rcases h with ⟨task, hTask', hCarried⟩ | ⟨id, hIn⟩
    · rcases update_some_cases hTask' with ⟨-, rfl⟩ | ⟨-, hOld⟩
      · cases hCarried
      · exact .inl ⟨task, hOld, hCarried⟩
    · rcases List.mem_cons.mp hIn with hEq | hIn
      · cases hEq
        exact .inl ⟨_, hTask, rfl⟩
      · exact .inr ⟨id, hIn⟩
  | @concluded t' cloned ending =>
    cases ending with
    | observe | invalidate =>
      exact h.of_update rfl rfl (hCons (by simp))
    | revoke | expire => exact h.of_update rfl rfl fun _ _ _ _ hIn => hIn
  | @guardDropped t' grantId cloned pipe =>
    have hSame : (r.dropGuard grantId pipe.id).tasks = r.tasks ∧
        (r.dropGuard grantId pipe.id).trail = r.trail := by
      unfold dropGuard
      split <;> exact ⟨rfl, rfl⟩
    refine h.of_update (congrArg (Function.update · t' _) hSame.1) rfl ?_
    intro t id a grant hIn
    exact hSame.2 ▸ hIn
  | observedSame | drained | expired | shut | found | listed | registered =>
    exact h.of_update rfl rfl (hCons (by simp))
  | _ => exact h.of_update rfl rfl fun _ _ _ _ hIn => hIn

theorem carries_call {t' control : Nat} {b : BrokerIdentity} {g : Grant}
    (h : (r.setTask t (.inserting b g control)).Carries t' a grant) :
    (t' = t ∧ grant = g) ∨ r.Carries t' a grant := by
  rcases h with ⟨task, hTask, hCarried⟩ | hIn
  · rcases update_some_cases hTask with ⟨rfl, rfl⟩ | ⟨-, hOld⟩
    · cases hCarried
      exact .inl ⟨rfl, rfl⟩
    · exact .inr (.inl ⟨task, hOld, hCarried⟩)
  · exact .inr (.inr hIn)

theorem clock_step (hMove : r.Move b r') : r.clock ≤ r'.clock := by
  cases hMove with
  | tick => exact Nat.le_add_right _ _
  | @concluded t' cloned ending => cases ending <;> exact Nat.le_refl _
  | @guardDropped =>
    unfold dropGuard
    split <;> exact Nat.le_refl _
  | _ => exact Nat.le_refl _

theorem tasks_grow (hMove : r.Move b r') (h : r.tasks t ≠ none) : r'.tasks t ≠ none := by
  have hUpdate : ∀ {t' : Nat} {new : Task}, Function.update r.tasks t' (some new) t ≠ none := by
    intro t' new
    by_cases hEq : t = t'
    · rw [hEq, Function.update_self]
      exact Option.some_ne_none _
    · rw [Function.update_of_ne hEq]
      exact h
  cases hMove with
  | tick => exact h
  | @concluded t' cloned ending => cases ending <;> exact hUpdate
  | @guardDropped =>
    unfold dropGuard
    split <;> exact hUpdate
  | _ => exact hUpdate

end Registry

/-! ## Ceremonies and their grants -/

/-- When the broker executed the REDEEM of the ceremony at hand. -/
def Stage.redeemedAt : Stage → Option Nat
  | .executed _ _ _ redeemedAt _ | .minting _ _ _ redeemedAt _ => some redeemedAt
  | .checking c | .pushing c | .rechecking c | .dating c => some c.redeemedAt
  | _ => none

/-- Every insertion is a ceremony's, with the deadline the ceremony computed. -/
structure Conducting (d : Desk) : Prop where
  begun : ∀ redeemedAt, d.stage.redeemedAt = some redeemedAt → redeemedAt ≤ d.registry.clock
  timed : ∀ c now deadline, d.stage = .dated c now (some deadline) →
    c.redeemedAt ≤ now ∧ deadline = now + fromSecs c.ttl
  ordered : ∀ x ∈ d.conducts, x.conduct.redeemedAt ≤ x.now
  called : ∀ x ∈ d.conducts, d.registry.tasks x.t ≠ none
  dated : ∀ x ∈ d.conducts, ∀ a grant, d.registry.Carries x.t a grant →
    grant.deadline = x.now + fromSecs x.conduct.ttl
  covered : ∀ t a grant, d.registry.Carries t a grant → ∃ x ∈ d.conducts, x.t = t

namespace Conducting

variable {d d' : Desk}

theorem registry (h : Conducting d) {b : Action} {r : Registry} {stage : Stage}
    (hStep : d.registry.step b = some r)
    (hCall : ∀ t call, b = .call t call → call.inserts = false)
    (hStage : stage = d.stage ∨ stage = .idle) : Conducting ⟨r, stage, d.conducts⟩ := by
  have hMove := Registry.step_move hStep
  refine ⟨?_, ?_, h.ordered, ?_, ?_, ?_⟩
  · intro redeemedAt hSome
    rcases hStage with rfl | rfl
    · exact Nat.le_trans (h.begun redeemedAt hSome) (Registry.clock_step hMove)
    · cases hSome
  · intro c now deadline hDated
    rcases hStage with rfl | rfl
    · exact h.timed c now deadline hDated
    · cases hDated
  · intro x hx
    exact Registry.tasks_grow hMove (h.called x hx)
  · intro x hx a grant hCarries
    exact h.dated x hx a grant (Registry.carries_step hMove hCall hCarries)
  · intro t a grant hCarries
    exact h.covered t a grant (Registry.carries_step hMove hCall hCarries)

theorem goto (h : Conducting d) {stage : Stage}
    (hStage : ∀ redeemedAt, stage.redeemedAt = some redeemedAt → redeemedAt ≤ d.registry.clock)
    (hDated : ∀ c now deadline, stage ≠ .dated c now deadline) : Conducting (d.goto stage) :=
  ⟨hStage, fun c now deadline hEq => absurd hEq (hDated c now deadline), h.ordered, h.called,
    h.dated, h.covered⟩

theorem keep (h : Conducting d) {stage : Stage} (hSame : stage.redeemedAt = d.stage.redeemedAt)
    (hDated : ∀ c now deadline, stage ≠ .dated c now deadline) : Conducting (d.goto stage) := by
  refine h.goto (fun redeemedAt hSome => h.begun redeemedAt ?_) hDated
  rw [← hSame]
  exact hSome

theorem leave (h : Conducting d) {stage : Stage} (hNone : stage.redeemedAt = none)
    (hDated : ∀ c now deadline, stage ≠ .dated c now deadline) : Conducting (d.goto stage) := by
  refine h.goto (fun redeemedAt hSome => ?_) hDated
  cases hNone.symm.trans hSome

theorem date (h : Conducting d) {c : Conduct} (hStage : d.stage = .dating c) :
    Conducting (d.goto (.dated c d.registry.clock
      (checkedAdd d.registry.clock (fromSecs c.ttl)))) := by
  refine ⟨nofun, ?_, h.ordered, h.called, h.dated, h.covered⟩
  intro c' now deadline hEq
  obtain ⟨rfl, rfl, hSum⟩ := Stage.dated.inj hEq
  refine ⟨h.begun _ (by rw [hStage]; rfl), ?_⟩
  exact (checkedAdd_eq_some.mp hSum).1

theorem insert (h : Conducting d) {t control : Nat} {c : Conduct} {now deadline : Nat}
    (hStage : d.stage = .dated c now (some deadline))
    (hStep : d.insert t control c now deadline = some d') : Conducting d' := by
  obtain ⟨r, hCall, rfl⟩ := Option.map_eq_some_iff.mp hStep
  obtain ⟨hBegun, hSum⟩ := h.timed c now deadline hStage
  cases Registry.step_move hCall with
  | call hNew =>
    -- the thread is new, so it carries nothing but this grant
    have hOther : ∀ x ∈ d.conducts, x.t ≠ t := by
      rintro x hx rfl
      exact h.called x hx hNew
    have hNever : ∀ a grant, ¬ d.registry.Carries t a grant := by
      intro a grant hCarries
      obtain ⟨x, hx, hEq⟩ := h.covered t a grant hCarries
      exact hOther x hx hEq
    refine ⟨(fun _ hNone => by cases hNone), by simp, ?_, ?_, ?_, ?_⟩
    · intro x hx
      rcases List.mem_cons.mp hx with rfl | hx
      · exact hBegun
      · exact h.ordered x hx
    · intro x hx
      rcases List.mem_cons.mp hx with rfl | hx
      · rw [Registry.setTask_self]
        exact Option.some_ne_none _
      · exact Registry.tasks_grow (.call hNew) (h.called x hx)
    · intro x hx a grant hGrant
      rcases List.mem_cons.mp hx with rfl | hx
      · rcases Registry.carries_call hGrant with ⟨-, rfl⟩ | hOld
        · exact hSum
        · exact absurd hOld (hNever a grant)
      · rcases Registry.carries_call hGrant with ⟨hEq, -⟩ | hOld
        · exact absurd hEq (hOther x hx)
        · exact h.dated x hx a grant hOld
    · intro t' a grant hGrant
      rcases Registry.carries_call hGrant with ⟨rfl, -⟩ | hOld
      · exact ⟨_, List.mem_cons_self .., rfl⟩
      · obtain ⟨x, hx, hEq⟩ := h.covered t' a grant hOld
        exact ⟨x, List.mem_cons_of_mem _ hx, hEq⟩

end Conducting

section

variable {d d' : Desk}

theorem conducting_request (h : Conducting d) (r : Request) (session : Option String) :
    Conducting (d.request r session) := by
  unfold Desk.request
  split
  · exact h.leave rfl (by simp)
  · split
    · exact h.leave rfl (by simp)
    · exact h.leave rfl (by simp)

theorem conducting_step {a : DeskAction} (h : Conducting d) (hStep : d.step a = some d') :
    Conducting d' := by
  cases a with
  | registry b =>
    have hOther : ∀ t call, b = .call t call → call.inserts = false := by
      rintro t call rfl
      by_contra hTo
      have hRefused : d.step (.registry (.call t call)) = none := by
        simp only [Desk.step, Bool.not_eq_false _ ▸ hTo, if_pos]
      cases hRefused.symm.trans hStep
    have hRegistry : ∃ r, d.registry.step b = some r ∧ { d with registry := r } = d' := by
      cases b with
      | call t call =>
        simp only [Desk.step, hOther t call rfl, Bool.false_eq_true, if_false] at hStep
        exact Option.map_eq_some_iff.mp hStep
      | tick | turn => exact Option.map_eq_some_iff.mp hStep
    obtain ⟨r, hRun, rfl⟩ := hRegistry
    exact h.registry hRun hOther (.inl rfl)
  | request r session =>
    simp only [Desk.step] at hStep
    split at hStep
    · cases hStep
      exact conducting_request h r session
    · cases hStep
  | execute =>
    simp only [Desk.step] at hStep
    split at hStep
    · cases hStep
      refine h.goto (fun redeemedAt hSome => ?_) (by simp)
      cases hSome
      exact Nat.le_refl _
    · cases hStep
  | redeemed =>
    simp only [Desk.step] at hStep
    split at hStep
    · rename_i hStage
      split at hStep
      · cases hStep
        exact h.leave rfl (by simp)
      · cases hStep
        exact h.keep (by rw [hStage]; rfl) (by simp)
    · cases hStep
  | mint =>
    simp only [Desk.step] at hStep
    split at hStep
    · cases hStep
      exact h.leave rfl (by simp)
    · rename_i hStage
      cases hStep
      exact h.keep (by rw [hStage]; rfl) (by simp)
    · cases hStep
  | check =>
    simp only [Desk.step] at hStep
    split at hStep
    · rename_i hStage
      split at hStep
      · cases hStep
        exact h.keep (by rw [hStage]; rfl) (by simp)
      · cases hStep
        exact h.leave rfl (by simp)
    · rename_i hStage
      split at hStep
      · cases hStep
        exact h.keep (by rw [hStage]; rfl) (by simp)
      · cases hStep
        exact h.leave rfl (by simp)
    · cases hStep
  | push =>
    simp only [Desk.step] at hStep
    split at hStep
    · rename_i hStage
      split at hStep
      · cases hStep
        exact h.keep (by rw [hStage]; rfl) (by simp)
      · cases hStep
        exact h.leave rfl (by simp)
    · cases hStep
  | date =>
    simp only [Desk.step] at hStep
    split at hStep
    · rename_i hStage
      cases hStep
      exact h.date hStage
    · cases hStep
  | insert =>
    simp only [Desk.step] at hStep
    split at hStep
    · cases hStep
      exact h.leave rfl (by simp)
    · rename_i hStage
      exact h.insert hStage hStep
    · cases hStep
  | resume =>
    simp only [Desk.step] at hStep
    split at hStep
    · split at hStep
      · cases hStep
        exact h.leave rfl (by simp)
      · cases hStep
        exact h.leave rfl (by simp)
      · cases hStep
    · cases hStep
  | reply =>
    simp only [Desk.step] at hStep
    split at hStep
    · rename_i id hStage
      split at hStep
      · cases hStep
        exact h.leave rfl (by simp)
      · obtain ⟨r, hRun, rfl⟩ := Option.map_eq_some_iff.mp hStep
        refine h.registry hRun ?_ (.inr rfl)
        intro t' call hEq
        cases hEq
        rfl
    · cases hStep
  | next =>
    simp only [Desk.step] at hStep
    split at hStep
    · cases hStep
      exact h.leave rfl (by simp)
    · cases hStep

theorem conducting_init : Conducting desk.init where
  begun := fun _ hStage => by cases hStage
  timed := fun _ _ _ hStage => by cases hStage
  ordered := fun _ hx => by cases hx
  called := fun _ hx => by cases hx
  dated := fun _ hx => by cases hx
  covered := by
    rintro t a grant (⟨task, hTask, -⟩ | ⟨id, hIn⟩)
    · cases hTask
    · cases hIn

theorem conducting_reachable (h : Reachable desk d) : Conducting d :=
  h.invariant (I := Conducting)
    (fun _ _ _ hInv _ hStep => conducting_step hInv (desk_step hStep)) conducting_init

end

/-- **When a browser grant stays within the broker's capability grant**: where the broker executed
REDEEM at `r` and reported `m` seconds, the deadline is at most `r + m` exactly if the time from `r`
until it was computed and the granted lifetime together are at most `m`. -/
theorem deadline_within_capability {d : Desk} (h : Reachable desk d) {t id : Nat}
    {a : BrokerIdentity} {grant : Grant} (hIn : .inserted t id a grant ∈ d.registry.trail) :
    (∃ x ∈ d.conducts, x.t = t) ∧
    ∀ x ∈ d.conducts, x.t = t →
      (grant.deadline ≤ x.conduct.redeemedAt + fromSecs x.conduct.redeemed.ttlSecs ↔
        durationSince x.now x.conduct.redeemedAt +
            fromSecs (min x.conduct.request.ttl x.conduct.redeemed.ttlSecs) ≤
          fromSecs x.conduct.redeemed.ttlSecs) := by
  have hInv := conducting_reachable h
  refine ⟨hInv.covered t a grant (.inr ⟨id, hIn⟩), ?_⟩
  rintro x hx rfl
  have hDeadline : grant.deadline =
      x.now + fromSecs (min x.conduct.request.ttl x.conduct.redeemed.ttlSecs) :=
    hInv.dated x hx a grant (.inr ⟨id, hIn⟩)
  have hOrder := hInv.ordered x hx
  rw [hDeadline]
  unfold durationSince
  omega

def slowPush (ttl : Nat) (receipt : List UInt8) (reply : String) (a : BrokerIdentity) :
    List DeskAction :=
  [.registry (.call 0 (.observeAuthority a)), .registry (.turn 0 true),
   .request ⟨ttl, receipt, 9000, 10, some ⟨10, 20⟩, true⟩ none, .execute (.ok (reply, a.socket)),
   .redeemed, .mint (some [7]), .check (.ok a), .registry (.tick (fromSecs 5)), .push true,
   .check (.ok a), .date, .insert 1 0, .registry (.turn 1 true), .registry (.turn 1 true)]

theorem deadline_within_capability_minute :
    ∃ (d : Desk) (x : Conducted) (a : BrokerIdentity) (grant : Grant), Reachable desk d ∧
      .inserted 1 0 a grant ∈ d.registry.trail ∧ x ∈ d.conducts ∧ x.t = 1 ∧
      durationSince x.now x.conduct.redeemedAt = fromSecs 5 ∧
      grant.deadline ≤ x.conduct.redeemedAt + fromSecs x.conduct.redeemed.ttlSecs := by
  let a : BrokerIdentity := ⟨"broker", 0, ⟨1, 2⟩⟩
  let receipt : List UInt8 := List.replicate 64 48
  let reply := "status=redeemed cap=browser instance=broker epoch=0 ttl=43200"
  let c : Conduct :=
    ⟨⟨60, receipt, 9000, 10, some ⟨10, 20⟩, true⟩, "pid 10", ⟨10, 20⟩, 0, ⟨a, 43200⟩, [7]⟩
  let grant : Grant := ⟨"pid 10", ⟨10, 20⟩, [7], fromSecs 65, 9000⟩
  have hReplay : (desk.run desk.init (slowPush 60 receipt reply a)).map (fun d =>
      decide (.inserted 1 0 a grant ∈ d.registry.trail ∧ d.conducts = [⟨1, c, fromSecs 5⟩])) =
      some true := by
    decide +kernel
  obtain ⟨d, hReach, hSeen⟩ := Reachable.of_replay hReplay
  obtain ⟨hIn, hConducts⟩ := of_decide_eq_true hSeen
  have hx : ⟨1, c, fromSecs 5⟩ ∈ d.conducts := by
    rw [hConducts]
    exact List.mem_singleton_self _
  obtain ⟨-, hWithin⟩ := deadline_within_capability hReach hIn
  exact ⟨d, _, a, grant, hReach, hIn, hx, rfl, rfl, (hWithin _ hx rfl).mpr (by decide)⟩

/-- The whole twelve hours that the broker reports, counted from five seconds
later: the browser grant outlives the capability grant by the push. -/
theorem deadline_beyond_capability :
    ∃ (st : Secrets.State) (receipt reply : String) (d : Desk) (x : Conducted)
      (a : BrokerIdentity) (grant : Grant),
      (st.redeem 0 receipt capBrowser x.conduct.redeemedAt).2 = .new (.fields reply) ∧
      redeem (Hygiene.textBytes receipt) capBrowser (.ok (reply, a.socket)) =
        .ok x.conduct.redeemed ∧
      Reachable desk d ∧ x ∈ d.conducts ∧ .inserted x.t 0 a grant ∈ d.registry.trail ∧
      x.conduct.redeemedAt + fromSecs x.conduct.redeemed.ttlSecs < grant.deadline := by
  let browser : Secrets.Capability := ⟨"browser", by decide +kernel⟩
  let st : Secrets.State :=
    { Secrets.State.new (Secrets.Config.default [⟨"host", "/d"⟩]) "boot" "broker" with
      receipts := ⟨[⟨⟨List.replicate 32 0, by decide⟩, browser, 0⟩]⟩ }
  let a : BrokerIdentity := ⟨"broker", 0, ⟨1, 2⟩⟩
  let receipt := String.ofList (List.replicate 64 '0')
  let reply := "status=redeemed cap=browser instance=broker epoch=0 ttl=43200"
  let c : Conduct :=
    ⟨⟨43200, Hygiene.textBytes receipt, 9000, 10, some ⟨10, 20⟩, true⟩, "pid 10", ⟨10, 20⟩, 0,
      ⟨a, 43200⟩, [7]⟩
  let grant : Grant := ⟨"pid 10", ⟨10, 20⟩, [7], fromSecs 43205, 9000⟩
  have hReplay : (desk.run desk.init (slowPush 43200 (Hygiene.textBytes receipt) reply a)).map
      (fun d => decide (.inserted 1 0 a grant ∈ d.registry.trail ∧
        d.conducts = [⟨1, c, fromSecs 5⟩])) = some true := by
    decide +kernel
  obtain ⟨d, hReach, hSeen⟩ := Reachable.of_replay hReplay
  obtain ⟨hIn, hConducts⟩ := of_decide_eq_true hSeen
  have hx : ⟨1, c, fromSecs 5⟩ ∈ d.conducts := by
    rw [hConducts]
    exact List.mem_singleton_self _
  exact ⟨st, receipt, reply, d, _, a, grant, by decide +kernel, by decide +kernel,
    hReach, hx, hIn, by decide⟩

end Forward.Browser
