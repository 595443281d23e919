import Forward.Harness.Omp

/-!
# Anchors, believed and retired

`Sound` is the invariant of the omp extension: what the broker has of an anchor is believed by the
current one or going to be unregistered by a task (`Task.accounts`). A retired anchor stays retired
(`Shared.Ages`).
-/

namespace Forward.Harness.Omp

open Lib Secrets

/-! ## Anchors -/

/-- The same anchor, later: it may have become registered, seen the daemon, or
have another promise. -/
structure Anchor.Same (a b : Anchor) : Prop where
  ownerSessionId : a.ownerSessionId = b.ownerSessionId
  token : a.token = b.token
  registered : b.registered = true → a.registered = true
  aborted : a.aborted = b.aborted

namespace Shared

def Live (sh : Shared) (x : Nat) : Prop :=
  sh.current = some x ∧ ∃ anchor, sh.anchors x = some anchor ∧ anchor.aborted = false

/-- Time goes on: anchors are not lost, and what is retired stays so. -/
structure Ages (sh sh' : Shared) : Prop where
  kept : ∀ x a, sh.anchors x = some a → ∃ a', sh'.anchors x = some a' ∧
    a'.ownerSessionId = a.ownerSessionId ∧ a'.token = a.token ∧
    (sh'.Live x → a.registered = true → a'.registered = true)
  live : ∀ x, sh'.Live x → sh.Live x ∨ sh.anchors x = none

/-- Nothing changes but what `Anchor.Same` leaves open. -/
structure Touches (sh sh' : Shared) : Prop where
  current : sh'.current = sh.current
  back : ∀ x a', sh'.anchors x = some a' → ∃ a, sh.anchors x = some a ∧ a'.Same a
  forth : ∀ x a, sh.anchors x = some a → ∃ a', sh'.anchors x = some a' ∧ a'.Same a

variable {sh sh' : Shared} {x y : Nat} {a : Anchor} {f : Anchor → Anchor}

theorem isLive_iff : sh.isLive x ↔ sh.Live x := by
  simp [isLive, Live, Option.any_eq_true]

theorem isRegistered_iff :
    sh.isRegistered x ↔ ∃ a, sh.anchors x = some a ∧ a.registered := by
  simp [isRegistered, Option.any_eq_true]

theorem update_cases (h : (sh.update x f).anchors y = some a) :
    (y = x ∧ ∃ old, sh.anchors x = some old ∧ a = f old) ∨ (y ≠ x ∧ sh.anchors y = some a) := by
  by_cases hSame : y = x
  · subst hSame
    have hSelf : (sh.update y f).anchors y = (sh.anchors y).map f := Function.update_self ..
    rw [hSelf] at h
    obtain ⟨old, hOld, hEq⟩ := Option.map_eq_some_iff.mp h
    exact .inl ⟨rfl, old, hOld, hEq.symm⟩
  · exact .inr ⟨hSame, (Function.update_of_ne hSame _ _).symm.trans h⟩

theorem update_self (h : sh.anchors x = some a) : (sh.update x f).anchors x = some (f a) := by
  have hSelf : (sh.update x f).anchors x = (sh.anchors x).map f := Function.update_self ..
  rw [hSelf, h]
  rfl

theorem update_of_ne (hNe : y ≠ x) : (sh.update x f).anchors y = sh.anchors y :=
  Function.update_of_ne hNe _ _

theorem Touches.update (hf : ∀ a, sh.anchors x = some a → (f a).Same a) :
    Touches sh (sh.update x f) := by
  refine ⟨rfl, ?_, ?_⟩
  · intro y a' h
    rcases update_cases h with ⟨rfl, old, hOld, rfl⟩ | ⟨-, hOld⟩
    · exact ⟨old, hOld, hf old hOld⟩
    · exact ⟨a', hOld, rfl, rfl, id, rfl⟩
  · intro y a h
    by_cases hSame : y = x
    · subst hSame
      exact ⟨f a, update_self h, hf a h⟩
    · exact ⟨a, (update_of_ne hSame).trans h, rfl, rfl, id, rfl⟩

theorem Touches.instances {instances : Nat → Instance} :
    Touches sh { sh with instances := instances } :=
  ⟨rfl, fun _ a h => ⟨a, h, rfl, rfl, id, rfl⟩, fun _ a h => ⟨a, h, rfl, rfl, id, rfl⟩⟩

theorem Touches.live (h : Touches sh sh') : sh'.Live x ↔ sh.Live x := by
  constructor
  · rintro ⟨hCurrent, a', hAnchor, hAborted⟩
    obtain ⟨a, hOld, hSame⟩ := h.back x a' hAnchor
    exact ⟨h.current ▸ hCurrent, a, hOld, hSame.aborted ▸ hAborted⟩
  · rintro ⟨hCurrent, a, hAnchor, hAborted⟩
    obtain ⟨a', hNew, hSame⟩ := h.forth x a hAnchor
    exact ⟨h.current.trans hCurrent, a', hNew, hSame.aborted.trans hAborted⟩

theorem Touches.ages (h : Touches sh sh') : Ages sh sh' := by
  refine ⟨?_, fun x hLive => Or.inl (h.live.mp hLive)⟩
  intro x a hAnchor
  obtain ⟨a', hNew, hSame⟩ := h.forth x a hAnchor
  exact ⟨a', hNew, hSame.ownerSessionId, hSame.token, fun _ => hSame.registered⟩

end Shared

/-! ## Tasks -/

namespace Task

/-- The anchor whose registration the task is. -/
def promised : Task → Option Nat
  | .registering x _ | .compensating x _ | .settling x _ | .settled x _ => some x
  | _ => none

/-- The task sends an UNREGISTER for what the broker has of the anchor, or takes
it over as its belief. -/
def accounts (x : Nat) : Task → Prop
  | .registering y (.line (some answer)) => y = x ∧ answer.reply = .ok
  | .compensating y call | .rekeying y _ call | .closing y call =>
    y = x ∧ ∀ answer, call ≠ .line (some answer)
  | _ => False

end Task

namespace Sys

def Known (s : Sys) (x : Nat) : Prop := ∃ a, s.shared.anchors x = some a

/-- The anchor has been replaced, dropped or aborted. -/
def Gone (s : Sys) (x : Nat) : Prop := s.Known x ∧ ¬ s.shared.Live x

/-- As long as the anchor is live, it is registered. -/
def Sure (s : Sys) (x : Nat) : Prop :=
  s.Known x ∧ (s.shared.Live x → ∀ a, s.shared.anchors x = some a → a.registered = true)

def Has (s : Sys) (x : Nat) : Prop :=
  ∀ a, s.shared.anchors x = some a → a.token ∈ s.broker.tokensOf a.ownerSessionId

/-- The daemon that answers is always the same. -/
def Heard (s : Sys) (call : Call) : Prop := ∀ id, call = .hello (some id) → id = s.broker.instanceId

/-- What a task relies on where it stands. -/
def Fits (s : Sys) : Task → Prop
  | .probing _ _ answer => s.Heard (.hello answer)
  | .joining _ x promise => ∃ task, s.tasks promise = some task ∧ task.promised = some x
  | .registering x call =>
    s.Known x ∧ s.Heard call ∧
      ∀ answer, call = .line (some answer) → answer.reply = .ok → s.shared.Live x → s.Has x
  | .compensating x call | .closing x call => s.Gone x ∧ s.Heard call
  | .rekeying x _ call => s.Gone x ∧ s.Heard call
  | .settling x result | .settled x result => result = true → s.Sure x
  | .gating x => s.Sure x
  | .requesting x _ call =>
    s.Sure x ∧ s.Heard call ∧
      ∀ answer, call = .line (some answer) → answer.reply = .unknownToken → ¬ s.shared.Live x
  | .finished => True

/-- The invariant. Within a step, one anchor may be excused from being accounted
for, and one that is being shut down while registered from having its task. -/
structure Sound (s : Sys) (account leave : Option Nat) : Prop where
  wf : s.broker.registry.WF
  minted : ∀ x a, s.shared.anchors x = some a → a.token ∈ s.minted
  distinct : ∀ x y a b, s.shared.anchors x = some a → s.shared.anchors y = some b →
    a.token = b.token → x = y
  entries : ∀ session token, token ∈ s.broker.tokensOf session →
    ∃ x a, s.shared.anchors x = some a ∧ a.token = token ∧ a.ownerSessionId = session
  current : ∀ c, s.shared.current = some c → ∃ a, s.shared.anchors c = some a ∧
    (a.aborted = true → a.registered = true →
      leave = some c ∨ ∃ p call, s.tasks p = some (.closing c call))
  seen : ∀ x a id, s.shared.anchors x = some a → a.brokerInstance = some id →
    id = s.broker.instanceId
  promised : ∀ x a q, s.shared.anchors x = some a → a.registration = some q →
    ∃ task, s.tasks q = some task ∧ task.promised = some x
  tasks : ∀ p task, s.tasks p = some task → s.Fits task
  held : ∀ x a, s.shared.Live x → s.shared.anchors x = some a → a.registered = true →
    a.token ∈ s.broker.tokensOf a.ownerSessionId
  accounted : ∀ x a, s.shared.anchors x = some a →
    a.token ∈ s.broker.tokensOf a.ownerSessionId →
    (s.shared.Live x ∧ a.registered = true) ∨ account = some x ∨
      ∃ p task, s.tasks p = some task ∧ task.accounts x

section

variable {s : Sys} {sh : Shared} {x : Nat} {task : Task} {account leave : Option Nat}

theorem Known.ages (h : s.Known x) (hAges : s.shared.Ages sh) :
    Known { s with shared := sh } x := by
  obtain ⟨a, hAnchor⟩ := h
  obtain ⟨a', hNew, -⟩ := hAges.kept x a hAnchor
  exact ⟨a', hNew⟩

theorem live_of_ages (h : s.Known x) (hAges : s.shared.Ages sh) (hLive : sh.Live x) :
    s.shared.Live x := by
  rcases hAges.live x hLive with hOld | hNone
  · exact hOld
  · obtain ⟨a, hAnchor⟩ := h
    cases hNone.symm.trans hAnchor

theorem Gone.ages (h : s.Gone x) (hAges : s.shared.Ages sh) : Gone { s with shared := sh } x :=
  ⟨h.1.ages hAges, fun hLive => h.2 (live_of_ages h.1 hAges hLive)⟩

theorem Sure.ages (h : s.Sure x) (hAges : s.shared.Ages sh) : Sure { s with shared := sh } x := by
  refine ⟨h.1.ages hAges, ?_⟩
  intro hLive a' hNew
  obtain ⟨a, hAnchor⟩ := h.1
  obtain ⟨a'', hNew', -, -, hRegistered⟩ := hAges.kept x a hAnchor
  obtain rfl := Option.mem_unique hNew hNew'
  exact hRegistered hLive (h.2 (live_of_ages h.1 hAges hLive) a hAnchor)

theorem Has.ages (h : s.Has x) (hKnown : s.Known x) (hAges : s.shared.Ages sh) :
    Has { s with shared := sh } x := by
  intro a' hNew
  obtain ⟨a, hAnchor⟩ := hKnown
  obtain ⟨a'', hNew', hOwner, hToken, -⟩ := hAges.kept x a hAnchor
  obtain rfl := Option.mem_unique hNew hNew'
  rw [hOwner, hToken]
  exact h a hAnchor

theorem Fits.ages (h : s.Fits task) (hAges : s.shared.Ages sh) :
    Fits { s with shared := sh } task := by
  cases task with
  | probing | joining => exact h
  | registering =>
    obtain ⟨hKnown, hHeard, hAnswer⟩ := h
    refine ⟨hKnown.ages hAges, hHeard, ?_⟩
    intro answer hCall hOk hLive
    exact (hAnswer answer hCall hOk (live_of_ages hKnown hAges hLive)).ages hKnown hAges
  | compensating | closing | rekeying => exact ⟨h.1.ages hAges, h.2⟩
  | settling | settled => exact fun hResult => (h hResult).ages hAges
  | gating => exact Sure.ages h hAges
  | requesting =>
    obtain ⟨hSure, hHeard, hUnknown⟩ := h
    refine ⟨hSure.ages hAges, hHeard, ?_⟩
    intro answer hCall hReply hLive
    exact hUnknown answer hCall hReply (live_of_ages hSure.1 hAges hLive)
  | finished => trivial

theorem Sound.touch (h : s.Sound account leave) (hTouches : s.shared.Touches sh)
    (hBelief : ∀ x a a', s.shared.anchors x = some a → sh.anchors x = some a' →
      a'.registered → a.registered ∨ (s.shared.Live x ∧ s.Has x))
    (hSeen : ∀ x a id, sh.anchors x = some a → a.brokerInstance = some id →
      id = s.broker.instanceId)
    (hPromised : ∀ x a q, sh.anchors x = some a → a.registration = some q →
      ∃ task, s.tasks q = some task ∧ task.promised = some x) :
    Sound { s with shared := sh } account leave := by
  refine ⟨h.wf, ?_, ?_, ?_, ?_, hSeen, hPromised, ?_, ?_, ?_⟩
  · intro x a' hNew
    obtain ⟨a, hAnchor, hSame⟩ := hTouches.back x a' hNew
    rw [hSame.token]
    exact h.minted x a hAnchor
  · intro x y a' b' hx hy hToken
    obtain ⟨a, hA, hSameA⟩ := hTouches.back x a' hx
    obtain ⟨b, hB, hSameB⟩ := hTouches.back y b' hy
    rw [hSameA.token, hSameB.token] at hToken
    exact h.distinct x y a b hA hB hToken
  · intro session token hMem
    obtain ⟨x, a, hAnchor, hToken, hOwner⟩ := h.entries session token hMem
    obtain ⟨a', hNew, hSame⟩ := hTouches.forth x a hAnchor
    exact ⟨x, a', hNew, hSame.token.trans hToken, hSame.ownerSessionId.trans hOwner⟩
  · intro c hCurrent
    obtain ⟨a, hAnchor, hLeaving⟩ := h.current c (hTouches.current.symm.trans hCurrent)
    obtain ⟨a', hNew, hSame⟩ := hTouches.forth c a hAnchor
    refine ⟨a', hNew, fun hAborted hRegistered => ?_⟩
    have hOldAborted : a.aborted := hSame.aborted.symm.trans hAborted
    rcases hBelief c a a' hAnchor hNew hRegistered with hOld | ⟨⟨-, b, hB, hLive⟩, -⟩
    · exact hLeaving hOldAborted hOld
    · -- belief only comes to a live anchor
      obtain rfl := Option.mem_unique hAnchor hB
      cases hLive.symm.trans hOldAborted
  · exact fun p task hTask => (h.tasks p task hTask).ages hTouches.ages
  · intro x a' hLive hNew hRegistered
    obtain ⟨a, hAnchor, hSame⟩ := hTouches.back x a' hNew
    rw [hSame.token, hSame.ownerSessionId]
    rcases hBelief x a a' hAnchor hNew hRegistered with hOld | ⟨-, hHas⟩
    · exact h.held x a (hTouches.live.mp hLive) hAnchor hOld
    · exact hHas a hAnchor
  · intro x a' hNew hMem
    obtain ⟨a, hAnchor, hSame⟩ := hTouches.back x a' hNew
    rw [hSame.token, hSame.ownerSessionId] at hMem
    rcases h.accounted x a hAnchor hMem with ⟨hLive, hRegistered⟩ | hOther
    · exact .inl ⟨hTouches.live.mpr hLive, hSame.registered hRegistered⟩
    · exact .inr hOther

end

/-! ## What happens to anchors -/

section

variable {s : Sys} {x : Nat} {f : Anchor → Anchor} {account leave : Option Nat}

theorem Sound.adjust (h : s.Sound account leave)
    (hf : ∀ a, s.shared.anchors x = some a → (f a).Same a)
    (hBelief : ∀ a, s.shared.anchors x = some a → (f a).registered →
      a.registered ∨ (s.shared.Live x ∧ s.Has x))
    (hSeen : ∀ a id, s.shared.anchors x = some a → (f a).brokerInstance = some id →
      id = s.broker.instanceId)
    (hPromised : ∀ a q, s.shared.anchors x = some a → (f a).registration = some q →
      ∃ task, s.tasks q = some task ∧ task.promised = some x) :
    Sound { s with shared := s.shared.update x f } account leave := by
  refine h.touch (.update hf) ?_ ?_ ?_
  · intro y a a' hAnchor hNew hRegistered
    rcases Shared.update_cases hNew with ⟨rfl, old, hOld, rfl⟩ | ⟨-, hOld⟩
    · obtain rfl := Option.mem_unique hAnchor hOld
      exact hBelief a hAnchor hRegistered
    · obtain rfl := Option.mem_unique hAnchor hOld
      exact .inl hRegistered
  · intro y a id hNew hEq
    rcases Shared.update_cases hNew with ⟨rfl, old, hOld, rfl⟩ | ⟨-, hOld⟩
    · exact hSeen old id hOld hEq
    · exact h.seen y a id hOld hEq
  · intro y a q hNew hEq
    rcases Shared.update_cases hNew with ⟨rfl, old, hOld, rfl⟩ | ⟨-, hOld⟩
    · exact hPromised old q hOld hEq
    · exact h.promised y a q hOld hEq

theorem Sound.hear (h : s.Sound account leave) :
    Sound { s with shared := s.shared.onInstance s.broker.instanceId } account leave := by
  unfold Shared.onInstance
  split
  · exact h
  · rename_i c hCurrent
    have hSame : ∀ a, s.shared.anchors c = some a → ¬ (a.brokerInstance ≠ none ∧
        a.brokerInstance ≠ some s.broker.instanceId) := by
      rintro a hAnchor ⟨hSome, hOther⟩
      obtain ⟨id, hEq⟩ := Option.ne_none_iff_exists'.mp hSome
      exact hOther (by rw [hEq, h.seen c a id hAnchor hEq])
    refine h.adjust ?_ ?_ ?_ ?_
    · intro a hAnchor
      exact ⟨rfl, rfl, fun hRegistered => (if_neg (hSame a hAnchor)).trans hRegistered, rfl⟩
    · intro a hAnchor hRegistered
      exact .inl ((if_neg (hSame a hAnchor)).symm.trans hRegistered)
    · exact fun a id _ hEq => (Option.some.inj hEq).symm
    · exact fun a q hAnchor hEq => h.promised c a q hAnchor hEq

theorem Sound.instances {instances : Nat → Instance} (h : s.Sound account leave) :
    Sound { s with shared := { s.shared with instances := instances } } account leave := by
  refine h.touch .instances ?_ h.seen h.promised
  intro x a a' hAnchor hNew hRegistered
  obtain rfl := Option.mem_unique hAnchor hNew
  exact .inl hRegistered

theorem Sound.believe (h : s.Sound account leave) (hLive : s.shared.Live x) (hHas : s.Has x) :
    Sound { s with shared := s.shared.update x fun a => { a with registered := true } }
      account leave :=
  h.adjust (fun _ _ => ⟨rfl, rfl, fun _ => rfl, rfl⟩) (fun _ _ _ => Or.inr ⟨hLive, hHas⟩)
    (fun a id hAnchor hEq => h.seen x a id hAnchor hEq)
    fun a q hAnchor hEq => h.promised x a q hAnchor hEq

theorem Sound.promise {promise : Option Nat} (h : s.Sound account leave)
    (hPromised : ∀ q, promise = some q → ∃ task, s.tasks q = some task ∧ task.promised = some x) :
    Sound { s with shared := s.shared.update x fun a => { a with registration := promise } }
      account leave :=
  h.adjust (fun _ _ => ⟨rfl, rfl, id, rfl⟩) (fun _ _ hRegistered => Or.inl hRegistered)
    (fun a id hAnchor hEq => h.seen x a id hAnchor hEq) fun _ q _ hEq => hPromised q hEq

theorem Sound.install (anchor : Anchor) (h : s.Sound none none)
    (hNew : s.shared.anchors x = none) (hFresh : anchor.token ∉ s.minted)
    (hPlain : anchor.registered = false ∧ anchor.registration = none ∧ anchor.aborted = false)
    (hSeen : ∀ id, anchor.brokerInstance = some id → id = s.broker.instanceId)
    (hAccount : ∀ c a, s.shared.current = some c → s.shared.anchors c = some a →
      a.registered → account = some c) :
    Sound { s with
      shared := { s.shared with
        current := some x, anchors := Function.update s.shared.anchors x (some anchor) }
      minted := anchor.token :: s.minted } account none := by
  have hKept : ∀ y a, s.shared.anchors y = some a →
      Function.update s.shared.anchors x (some anchor) y = some a := by
    intro y a hAnchor
    refine update_some_of_ne ?_ hAnchor
    rintro rfl
    cases hNew.symm.trans hAnchor
  -- nobody else is live any more
  have hLives : ∀ y, Shared.Live { s.shared with
      current := some x, anchors := Function.update s.shared.anchors x (some anchor) } y →
      y = x := fun y hLive => (Option.some.inj hLive.1).symm
  have hOthers : ∀ y a, s.shared.anchors y = some a → a.token ≠ anchor.token := by
    intro y a hAnchor hEq
    exact hFresh (hEq ▸ h.minted y a hAnchor)
  refine ⟨h.wf, ?_, ?_, ?_, ?_, ?_, ?_, ?_, ?_, ?_⟩
  · intro y a hAnchor
    rcases update_some_cases hAnchor with ⟨-, rfl⟩ | ⟨-, hOld⟩
    · exact List.mem_cons_self
    · exact List.mem_cons_of_mem _ (h.minted y a hOld)
  · intro y z a b hy hz hEq
    rcases update_some_cases hy with ⟨rfl, rfl⟩ | ⟨-, hOldY⟩
    · rcases update_some_cases hz with ⟨rfl, -⟩ | ⟨-, hOldZ⟩
      · rfl
      · exact absurd hEq.symm (hOthers z b hOldZ)
    · rcases update_some_cases hz with ⟨rfl, rfl⟩ | ⟨-, hOldZ⟩
      · exact absurd hEq (hOthers y a hOldY)
      · exact h.distinct y z a b hOldY hOldZ hEq
  · intro session token hMem
    obtain ⟨y, a, hAnchor, hToken, hOwner⟩ := h.entries session token hMem
    exact ⟨y, a, hKept y a hAnchor, hToken, hOwner⟩
  · intro c hCurrent
    cases hCurrent
    refine ⟨anchor, Function.update_self .., fun hAborted _ => ?_⟩
    rw [hPlain.2.2] at hAborted
    cases hAborted
  · intro y a id hAnchor hEq
    rcases update_some_cases hAnchor with ⟨-, rfl⟩ | ⟨-, hOld⟩
    · exact hSeen id hEq
    · exact h.seen y a id hOld hEq
  · intro y a q hAnchor hEq
    rcases update_some_cases hAnchor with ⟨-, rfl⟩ | ⟨-, hOld⟩
    · rw [hPlain.2.1] at hEq
      cases hEq
    · exact h.promised y a q hOld hEq
  · intro p task hTask
    refine (h.tasks p task hTask).ages ⟨?_, ?_⟩
    · intro y a hAnchor
      exact ⟨a, hKept y a hAnchor, rfl, rfl, fun _ hRegistered => hRegistered⟩
    · intro y hLive
      rw [hLives y hLive]
      exact .inr hNew
  · intro y a hLive hAnchor hRegistered
    rcases update_some_cases hAnchor with ⟨-, rfl⟩ | ⟨hNe, -⟩
    · rw [hPlain.1] at hRegistered
      cases hRegistered
    · exact absurd (hLives y hLive) hNe
  · intro y a hAnchor hMem
    rcases update_some_cases hAnchor with ⟨-, rfl⟩ | ⟨-, hOld⟩
    · -- the broker has never seen the token
      obtain ⟨z, b, hz, hToken, -⟩ := h.entries _ _ hMem
      exact absurd hToken (hOthers z b hz)
    · rcases h.accounted y a hOld hMem with ⟨hLive, hRegistered⟩ | hNone | hTask
      · exact .inr (.inl (hAccount y a hLive.1 hOld hRegistered))
      · cases hNone
      · exact .inr (.inr hTask)

theorem Sound.abort (h : s.Sound account none) (account' leave' : Option Nat)
    (hKeep : ∀ y, account = some y → account' = some y)
    (hMine : ∀ a, s.shared.current = some x → s.shared.anchors x = some a →
      a.registered → account' = some x ∧ leave' = some x) :
    Sound { s with shared := s.shared.update x fun a => { a with aborted := true } }
      account' leave' := by
  let sh := s.shared.update x fun a => { a with aborted := true }
  have hBack : ∀ y a', sh.anchors y = some a' → ∃ a, s.shared.anchors y = some a ∧
      a'.ownerSessionId = a.ownerSessionId ∧ a'.token = a.token ∧
      a'.registered = a.registered ∧ a'.brokerInstance = a.brokerInstance ∧
      a'.registration = a.registration ∧ (y ≠ x → a'.aborted = a.aborted) ∧
      (y = x → a'.aborted) := by
    intro y a' hNew
    rcases Shared.update_cases hNew with ⟨rfl, old, hOld, rfl⟩ | ⟨hNe, hOld⟩
    · exact ⟨old, hOld, rfl, rfl, rfl, rfl, rfl, fun hNe => absurd rfl hNe, fun _ => rfl⟩
    · exact ⟨a', hOld, rfl, rfl, rfl, rfl, rfl, fun _ => rfl, fun hEq => absurd hEq hNe⟩
  have hForth : ∀ y a, s.shared.anchors y = some a → ∃ a', sh.anchors y = some a' ∧
      a'.ownerSessionId = a.ownerSessionId ∧ a'.token = a.token ∧
      a'.registered = a.registered := by
    intro y a hAnchor
    by_cases hSame : y = x
    · subst hSame
      exact ⟨_, Shared.update_self hAnchor, rfl, rfl, rfl⟩
    · exact ⟨a, (Shared.update_of_ne hSame).trans hAnchor, rfl, rfl, rfl⟩
  have hLives : ∀ y, sh.Live y → s.shared.Live y ∧ y ≠ x := by
    rintro y ⟨hCurrent, a', hNew, hAborted⟩
    obtain ⟨a, hAnchor, -, -, -, -, -, hOther, hSelf⟩ := hBack y a' hNew
    have hNe : y ≠ x := by
      intro hEq
      rw [hSelf hEq] at hAborted
      cases hAborted
    exact ⟨⟨hCurrent, a, hAnchor, (hOther hNe).symm.trans hAborted⟩, hNe⟩
  refine ⟨h.wf, ?_, ?_, ?_, ?_, ?_, ?_, ?_, ?_, ?_⟩
  · intro y a' hNew
    obtain ⟨a, hAnchor, -, hToken, -⟩ := hBack y a' hNew
    rw [hToken]
    exact h.minted y a hAnchor
  · intro y z a' b' hy hz hEq
    obtain ⟨a, hA, -, hTokenA, -⟩ := hBack y a' hy
    obtain ⟨b, hB, -, hTokenB, -⟩ := hBack z b' hz
    rw [hTokenA, hTokenB] at hEq
    exact h.distinct y z a b hA hB hEq
  · intro session token hMem
    obtain ⟨y, a, hAnchor, hToken, hOwner⟩ := h.entries session token hMem
    obtain ⟨a', hNew, hOwner', hToken', -⟩ := hForth y a hAnchor
    exact ⟨y, a', hNew, hToken'.trans hToken, hOwner'.trans hOwner⟩
  · intro c hCurrent
    obtain ⟨a, hAnchor, hLeaving⟩ := h.current c hCurrent
    obtain ⟨a', hNew, -, -, hKept⟩ := hForth c a hAnchor
    refine ⟨a', hNew, fun hAborted hRegistered => ?_⟩
    have hOld : a.registered := hKept.symm.trans hRegistered
    by_cases hSame : c = x
    · subst hSame
      exact .inl (hMine a hCurrent hAnchor hOld).2
    · obtain ⟨b, hAnchor', -, -, -, -, -, hOther, -⟩ := hBack c a' hNew
      obtain rfl := Option.mem_unique hAnchor hAnchor'
      rcases hLeaving ((hOther hSame).symm.trans hAborted) hOld with hNone | hClosing
      · cases hNone
      · exact .inr hClosing
  · intro y a' id hNew hEq
    obtain ⟨a, hAnchor, -, -, -, hSame, -⟩ := hBack y a' hNew
    exact h.seen y a id hAnchor (hSame.symm.trans hEq)
  · intro y a' q hNew hEq
    obtain ⟨a, hAnchor, -, -, -, -, hSame, -⟩ := hBack y a' hNew
    exact h.promised y a q hAnchor (hSame.symm.trans hEq)
  · intro p task hTask
    refine (h.tasks p task hTask).ages ⟨?_, fun y hLive => Or.inl (hLives y hLive).1⟩
    intro y a hAnchor
    obtain ⟨a', hNew, hOwner, hToken, hSame⟩ := hForth y a hAnchor
    exact ⟨a', hNew, hOwner, hToken, fun _ hRegistered => hSame.trans hRegistered⟩
  · intro y a' hLive hNew hRegistered
    obtain ⟨a, hAnchor, hOwner, hToken, hSame, -⟩ := hBack y a' hNew
    rw [hToken, hOwner]
    exact h.held y a (hLives y hLive).1 hAnchor (hSame.symm.trans hRegistered)
  · intro y a' hNew hMem
    obtain ⟨a, hAnchor, hOwner, hToken, hSame, -, -, hOther, -⟩ := hBack y a' hNew
    rw [hToken, hOwner] at hMem
    rcases h.accounted y a hAnchor hMem with ⟨⟨hCurrent, b, hB, hLive⟩, hRegistered⟩ | hKept | hTask
    · obtain rfl := Option.mem_unique hAnchor hB
      by_cases hEq : y = x
      · subst hEq
        exact .inr (.inl (hMine a hCurrent hAnchor hRegistered).1)
      · exact .inl ⟨⟨hCurrent, a', hNew, (hOther hEq).trans hLive⟩, hSame.trans hRegistered⟩
    · exact .inr (.inl (hKeep y hKept))
    · exact .inr (.inr hTask)

theorem Sound.drop (h : s.Sound none none)
    (hFree : ∀ c a, s.shared.Live c → s.shared.anchors c = some a → a.registered = false) :
    Sound { s with shared := { s.shared with current := none } } none none := by
  refine ⟨h.wf, h.minted, h.distinct, h.entries, nofun, h.seen, h.promised, ?_, ?_, ?_⟩
  · intro p task hTask
    refine (h.tasks p task hTask).ages ⟨?_, ?_⟩
    · exact fun y a hAnchor => ⟨a, hAnchor, rfl, rfl, fun _ hRegistered => hRegistered⟩
    · rintro y ⟨hCurrent, -⟩
      cases hCurrent
  · rintro y a ⟨hCurrent, -⟩
    cases hCurrent
  · intro y a hAnchor hMem
    rcases h.accounted y a hAnchor hMem with ⟨hLive, hRegistered⟩ | hOther
    · rw [hFree y a hLive hAnchor] at hRegistered
      cases hRegistered
    · exact .inr hOther

end

/-! ## Tasks move -/

section

variable {s : Sys} {p fresh : Nat} {task : Task} {account leave : Option Nat}

theorem Fits.move {other : Task} (h : s.Fits other)
    (hPromised : ∀ old x, s.tasks p = some old → old.promised = some x →
      task.promised = some x) :
    Fits { s with tasks := Function.update s.tasks p (some task) } other := by
  cases other with
  | joining caller x promise =>
    obtain ⟨old, hOld, hWho⟩ := h
    by_cases hSame : promise = p
    · subst hSame
      exact ⟨task, Function.update_self .., hPromised old x hOld hWho⟩
    · exact ⟨old, update_some_of_ne hSame hOld, hWho⟩
  | _ => exact h

theorem Sound.move (h : s.Sound account leave) (hFits : s.Fits task)
    (hPromised : ∀ old x, s.tasks p = some old → old.promised = some x →
      task.promised = some x)
    (hAccounts : ∀ old x a, s.tasks p = some old → old.accounts x →
      s.shared.anchors x = some a → a.token ∈ s.broker.tokensOf a.ownerSessionId →
      task.accounts x ∨ (s.shared.Live x ∧ a.registered))
    (hClosing : ∀ c call, s.tasks p = some (.closing c call) → s.shared.current = some c →
      ∃ call', task = .closing c call')
    (hAccount : ∀ x, account = some x → task.accounts x)
    (hLeave : ∀ c, leave = some c → ∃ call, task = .closing c call) :
    Sound { s with tasks := Function.update s.tasks p (some task) } none none := by
  refine ⟨h.wf, h.minted, h.distinct, h.entries, ?_, h.seen, ?_, ?_, h.held, ?_⟩
  · intro c hCurrent
    obtain ⟨a, hAnchor, hLeaving⟩ := h.current c hCurrent
    refine ⟨a, hAnchor, fun hAborted hRegistered => Or.inr ?_⟩
    rcases hLeaving hAborted hRegistered with hExcused | ⟨q, call, hTask⟩
    · obtain ⟨call, rfl⟩ := hLeave c hExcused
      exact ⟨p, call, Function.update_self ..⟩
    · by_cases hSame : q = p
      · subst hSame
        obtain ⟨call', rfl⟩ := hClosing c call hTask hCurrent
        exact ⟨q, call', Function.update_self ..⟩
      · exact ⟨q, call, update_some_of_ne hSame hTask⟩
  · intro x a q hAnchor hEq
    obtain ⟨old, hOld, hWho⟩ := h.promised x a q hAnchor hEq
    by_cases hSame : q = p
    · subst hSame
      exact ⟨task, Function.update_self .., hPromised old x hOld hWho⟩
    · exact ⟨old, update_some_of_ne hSame hOld, hWho⟩
  · intro q other hTask
    rcases update_some_cases hTask with ⟨-, rfl⟩ | ⟨-, hOld⟩
    · exact hFits.move hPromised
    · exact (h.tasks q other hOld).move hPromised
  · intro x a hAnchor hMem
    rcases h.accounted x a hAnchor hMem with hBelieved | hExcused | ⟨q, old, hOld, hWho⟩
    · exact .inl hBelieved
    · exact .inr (.inr ⟨p, task, Function.update_self .., hAccount x hExcused⟩)
    · by_cases hSame : q = p
      · subst hSame
        rcases hAccounts old x a hOld hWho hAnchor hMem with hStill | hBelieved
        · exact .inr (.inr ⟨q, task, Function.update_self .., hStill⟩)
        · exact .inl hBelieved
      · exact .inr (.inr ⟨q, old, update_some_of_ne hSame hOld, hWho⟩)

/-- The task, if there is one, is nobody's promise and accounts for nothing. -/
def Idle (s : Sys) (p : Nat) : Prop :=
  ∀ task, s.tasks p = some task → task.promised = none ∧ (∀ x, ¬ task.accounts x) ∧
    ∀ c call, task = .closing c call → s.shared.current ≠ some c

theorem Sound.start (h : s.Sound account leave) (hFits : s.Fits task) (hIdle : s.Idle p)
    (hAccount : ∀ x, account = some x → task.accounts x)
    (hLeave : ∀ c, leave = some c → ∃ call, task = .closing c call) :
    Sound { s with tasks := Function.update s.tasks p (some task) } none none := by
  refine h.move hFits ?_ ?_ ?_ hAccount hLeave
  · intro old x hOld hWho
    rw [(hIdle old hOld).1] at hWho
    cases hWho
  · intro old x a hOld hWho
    exact absurd hWho ((hIdle old hOld).2.1 x)
  · intro c call hOld hCurrent
    exact absurd hCurrent ((hIdle _ hOld).2.2 c call rfl)

theorem idle_of_none (h : s.tasks p = none) : s.Idle p := by
  intro task hTask
  cases h.symm.trans hTask

variable {x : Nat} {caller : Caller}

theorem awaitRegistration_sound (h : s.Sound none none) (hIdle : s.Idle p)
    (hFresh : fresh ≠ p ∧ s.tasks fresh = none) :
    Sound (s.goOn p fresh (s.shared.awaitRegistration caller x fresh)) none none := by
  unfold Shared.awaitRegistration
  split
  · rename_i promise hPromise
    obtain ⟨a, hAnchor, hEq⟩ := Option.bind_eq_some_iff.mp hPromise
    have hFits : s.Fits (.joining caller x promise) := h.promised x a promise hAnchor hEq
    exact h.start hFits hIdle nofun nofun
  · split
    · rename_i hLive
      obtain ⟨-, a, hAnchor, -⟩ := Shared.isLive_iff.mp hLive
      -- the promise is there before anybody waits for it
      have hFits : s.Fits (.registering x (.hello none)) := ⟨⟨a, hAnchor⟩, nofun, nofun⟩
      have hSpawned : Sound { s with
          tasks := Function.update s.tasks fresh (some (.registering x (.hello none))) }
          none none := h.start hFits (idle_of_none hFresh.2) nofun nofun
      have hThere : Function.update s.tasks fresh (some (.registering x (.hello none))) fresh =
          some (.registering x (.hello none)) := Function.update_self ..
      have hPromised : Sound { s with
          shared := s.shared.update x fun anchor => { anchor with registration := some fresh }
          tasks := Function.update s.tasks fresh (some (.registering x (.hello none))) }
          none none := by
        refine hSpawned.promise ?_
        intro q hEq
        cases hEq
        exact ⟨_, hThere, rfl⟩
      refine hPromised.start ⟨_, hThere, rfl⟩ ?_ nofun nofun
      intro task hTask
      exact hIdle task ((Function.update_of_ne (Ne.symm hFresh.1) _ _).symm.trans hTask)
    · have hFits : s.Fits .finished := trivial
      exact h.start hFits hIdle nofun nofun

theorem resume_fits (h : s.Sure x) : s.Fits (caller.resume x) := by
  cases caller with
  | event => trivial
  | request => exact h
  | reregister => exact ⟨h, nofun, nofun⟩

theorem probed_sound (h : s.Sound none none) (hIdle : s.Idle p)
    (hFresh : fresh ≠ p ∧ s.tasks fresh = none) :
    Sound (s.goOn p fresh (s.shared.probed caller x fresh)) none none := by
  unfold Shared.probed
  split
  · rename_i hRegistered
    obtain ⟨a, hAnchor, hTrue⟩ := Shared.isRegistered_iff.mp hRegistered
    have hSure : s.Sure x := by
      refine ⟨⟨a, hAnchor⟩, ?_⟩
      intro _ b hB
      obtain rfl := Option.mem_unique hAnchor hB
      exact hTrue
    have hFits : s.Fits (caller.resume x) := resume_fits hSure
    exact h.start hFits hIdle nofun nofun
  · exact awaitRegistration_sound h hIdle hFresh

theorem ensureRegistered_sound (h : s.Sound none none) (hIdle : s.Idle p)
    (hFresh : fresh ≠ p ∧ s.tasks fresh = none) :
    Sound (s.goOn p fresh (s.shared.ensureRegistered caller x fresh)) none none := by
  unfold Shared.ensureRegistered
  split
  · split
    · have hFits : s.Fits (.probing caller x none) := nofun
      exact h.start hFits hIdle nofun nofun
    · exact awaitRegistration_sound h hIdle hFresh
  · have hFits : s.Fits .finished := trivial
    exact h.start hFits hIdle nofun nofun

theorem idle_of_some {task : Task} (hTask : s.tasks p = some task) (hPromised : task.promised = none)
    (hAccounts : ∀ x, ¬ task.accounts x) (hClosing : ∀ c call, task ≠ .closing c call) :
    s.Idle p := by
  intro other hOther
  obtain rfl := Option.mem_unique hTask hOther
  exact ⟨hPromised, hAccounts, fun c call hEq => absurd hEq (hClosing c call)⟩

theorem Sound.advance {old : Task} (h : s.Sound none none) (hTask : s.tasks p = some old)
    (hFits : s.Fits task) (hPromised : ∀ x, old.promised = some x → task.promised = some x)
    (hAccounts : ∀ x, old.accounts x → task.accounts x)
    (hClosing : ∀ c call, old = .closing c call → ∃ call', task = .closing c call') :
    Sound { s with tasks := Function.update s.tasks p (some task) } none none := by
  refine h.move hFits ?_ ?_ ?_ nofun nofun
  · intro other x hOther hWho
    obtain rfl := Option.mem_unique hTask hOther
    exact hPromised x hWho
  · intro other x a hOther hWho _ _
    obtain rfl := Option.mem_unique hTask hOther
    exact .inl (hAccounts x hWho)
  · intro c call hOther _
    obtain rfl := Option.mem_unique hTask hOther
    exact hClosing c call rfl

end

end Sys

end Forward.Harness.Omp
