import MbTools.Api.System

/-! # Where a session comes from

Everything a step can do to the sessions, said once: a stream or a pool session
that is there after a step was there before it and only moved on, or the step
has just accepted it.
-/

namespace MbTools.Api

open Store

/-- The same session, moved on. -/
structure StreamSession.Becomes (x y : StreamSession) : Prop where
  uid : y.uid = x.uid
  port : y.port = x.port
  isVirtual : y.isVirtual = x.isVirtual
  closed : x.phase = .closed → y.phase = .closed
  accepted : y.phase = .accepted → x.phase = .accepted

theorem StreamSession.Becomes.refl (x : StreamSession) : x.Becomes x := ⟨rfl, rfl, rfl, id, id⟩

theorem StreamSession.step_becomes {x y : StreamSession} {v : Bool} {w : SessionStep}
    (hs : x.step v w = some y) : x.Becomes y := by
  cases w with
  | send f =>
    simp only [step, Option.ite_none_right_eq_some, Option.some.injEq] at hs
    obtain ⟨-, rfl⟩ := hs
    exact ⟨rfl, rfl, rfl, id, id⟩
  | «open» ok =>
    simp only [step, Option.ite_none_right_eq_some, Option.some.injEq] at hs
    obtain ⟨hp, rfl⟩ := hs
    cases ok <;> constructor <;> simp [hp]
  | read =>
    simp only [step, Option.ite_none_right_eq_some, Option.some.injEq] at hs
    obtain ⟨-, rfl⟩ := hs
    exact .refl x
  | serve ok =>
    simp only [step] at hs
    split at hs
    · rename_i f inbox hp _
      cases hs
      refine ⟨rfl, rfl, rfl, fun hc => ?_, fun ha => ?_⟩
      · cases hp.symm.trans hc
      · dsimp only at ha
        split at ha <;> cases ha
    · cases hs
  | check =>
    simp only [step, Option.ite_none_right_eq_some, Option.some.injEq] at hs
    obtain ⟨-, rfl⟩ := hs
    exact ⟨rfl, rfl, rfl, id, id⟩
  | stop =>
    simp only [step, Option.ite_none_right_eq_some, Option.some.injEq] at hs
    obtain ⟨hp, rfl⟩ := hs
    exact ⟨rfl, rfl, rfl, fun hc => absurd (hp.symm.trans hc) (by simp), nofun⟩
  | close =>
    simp only [step, Option.ite_none_right_eq_some, Option.some.injEq] at hs
    obtain ⟨-, rfl⟩ := hs
    exact ⟨rfl, rfl, rfl, fun _ => rfl, nofun⟩

theorem StreamSession.live_of_performs {x y : StreamSession} {v : Bool} {w : SessionStep}
    {op : PortOp} (hp : x.performs w = some op) (hs : x.step v w = some y) :
    x.isVirtual = false ∧ x.phase ≠ .closed := by
  unfold performs at hp
  split at hp
  · cases hp
  · rename_i hv
    refine ⟨by simpa using hv, fun hcl => ?_⟩
    cases w <;> simp [step, hcl] at hp hs

theorem PoolSession.step_keeps {x y : PoolSession} {w : PoolStep} (hs : x.step w = some y) :
    y.uid = x.uid ∧ y.holder = x.holder ∧ (x.phase = .closed → y.phase = .closed) := by
  cases w with
  | io op =>
    simp only [step, Option.ite_none_right_eq_some, Option.some.injEq] at hs
    obtain ⟨-, rfl⟩ := hs
    exact ⟨rfl, rfl, id⟩
  | pump =>
    simp only [step, Option.ite_none_right_eq_some, Option.some.injEq] at hs
    obtain ⟨hp, rfl⟩ := hs
    exact ⟨rfl, rfl, fun hc => by cases hp.symm.trans hc⟩
  | reset =>
    simp only [step, Option.ite_none_right_eq_some, Option.some.injEq] at hs
    obtain ⟨hp, rfl⟩ := hs
    exact ⟨rfl, rfl, fun hc => by simp [hc] at hp⟩
  | close =>
    simp only [step, Option.ite_none_right_eq_some, Option.some.injEq] at hs
    obtain ⟨-, rfl⟩ := hs
    exact ⟨rfl, rfl, fun _ => rfl⟩

namespace System

variable {s s' : System} {a : Action} {uid : String} {h : HolderRef} {i j : ℕ} {c c' : Conn}
  {t : StreamSession}

@[simp] theorem shutTracked_daemon : (s.shutTracked uid).daemon = s.daemon := by
  unfold shutTracked
  split <;> rfl

@[simp] theorem shutTracked_pool : (s.shutTracked uid).pool = s.pool := by
  unfold shutTracked
  split <;> rfl

/-- The connection is the stream `t` of that holder. -/
def Streams (s : System) (j : ℕ) (h : HolderRef) (t : StreamSession) : Prop :=
  ∃ c, s.conns.lookup j = some c ∧ c.mode = .streaming t ∧ c.holder = h

theorem Streams.of_insert (ht : s'.Streams j h t) (hc : s'.conns = s.conns.insert i c) :
    s.Streams j h t ∨ i = j ∧ c.mode = .streaming t ∧ c.holder = h := by
  obtain ⟨c', hj, hm, hh⟩ := ht
  rw [hc] at hj
  rcases Dict.lookup_insert_cases hj with (⟨hij, rfl⟩ | hj)
  · exact Or.inr ⟨hij, hm, hh⟩
  · exact Or.inl ⟨c', hj, hm, hh⟩

theorem Streams.of_insert_ne (ht : s'.Streams j h t) (hc : s'.conns = s.conns.insert i c)
    (hm : ∀ t, c.mode ≠ .streaming t) : s.Streams j h t := by
  rcases ht.of_insert hc with (ht | ⟨-, hcm, -⟩)
  · exact ht
  · exact absurd hcm (hm t)

theorem Streams.of_shutTracked (ht : (s.shutTracked uid).Streams j h t) : s.Streams j h t := by
  unfold shutTracked at ht
  split at ht
  · exact ht
  · rename_i k c hk
    obtain ⟨k', -, hk'⟩ := Option.bind_eq_some_iff.mp hk
    obtain ⟨c', hc', he⟩ := Option.map_eq_some_iff.mp hk'
    obtain ⟨rfl, rfl⟩ := Prod.mk.inj he
    have hset : (s.setConn k' { c' with shut := true }).Streams j h t := ht
    rcases hset.of_insert rfl with (ht | ⟨rfl, hm, hh⟩)
    · exact ht
    · exact ⟨c', hc', hm, hh⟩

/-- The stream has just been accepted by its precheck. -/
def Accepts (s : System) (a : Action) (j : ℕ) (h : HolderRef) (t : StreamSession) : Prop :=
  ∃ x dialed c r port kind, a = .stream j x dialed ∧ s.conns.lookup j = some c ∧ c.holder = h ∧
    opStreamPrecheck c.server s.daemon x h = .ok (r, port, kind) ∧
    t = ⟨r.uid, port, r.isVirtual, .accepted, false, []⟩

theorem Streams.step (ht : s'.Streams j h t) (hs : s.step a = some s') :
    (∃ x, s.Streams j h x ∧ x.Becomes t) ∨ s.Accepts a j h t ∧ s'.daemon = s.daemon := by
  have hkeep : s.Streams j h t →
      (∃ x, s.Streams j h x ∧ x.Becomes t) ∨ s.Accepts a j h t ∧ s'.daemon = s.daemon :=
    fun ht => Or.inl ⟨t, ht, .refl t⟩
  cases step_cases hs with
  | refused => exact hkeep ht
  | connect => exact hkeep (ht.of_insert_ne rfl nofun)
  | lock hc hidle hop hmode =>
    apply hkeep
    apply ht.of_insert_ne rfl
    rcases hmode with (rfl | rfl) <;> nofun
  | track => exact hkeep (ht.of_insert_ne rfl nofun)
  | unlock hc hidle hop hmode =>
    apply hkeep
    apply ht.of_insert_ne rfl
    rcases hmode with (rfl | rfl) <;> nofun
  | untrack => exact hkeep (ht.of_insert_ne rfl nofun)
  | forceUnlock => exact hkeep ht.of_shutTracked
  | flash => exact hkeep (ht.of_insert_ne rfl nofun)
  | flashEnd => exact hkeep (ht.of_insert_ne rfl nofun)
  | stream hc hidle hserver hop hdialed =>
    rcases ht.of_insert rfl with (ht | ⟨rfl, hm, rfl⟩)
    · exact hkeep ht
    · obtain rfl := Mode.streaming.inj hm
      exact Or.inr ⟨⟨_, _, _, _, _, _, rfl, hc, rfl, hop, rfl⟩, rfl⟩
  | session hc hm hsend hstep =>
    rcases ht.of_insert rfl with (ht | ⟨rfl, hy, rfl⟩)
    · exact hkeep ht
    · obtain rfl := Mode.streaming.inj hy
      exact Or.inl ⟨_, ⟨_, hc, hm, rfl⟩, StreamSession.step_becomes hstep⟩
  | streamEnd => exact hkeep (ht.of_insert_ne rfl nofun)
  | hangUp =>
    obtain ⟨c, hj, hm, hh⟩ := ht
    exact hkeep ⟨c, (Dict.lookup_erase_eq_some hj).2, hm, hh⟩
  | sweep => exact hkeep ht
  | cycle => exact hkeep ht
  | write => exact hkeep ht
  | detachVirtual => exact hkeep ht.of_shutTracked
  | poolAccept => exact hkeep ht
  | pool => exact hkeep ht
  | poolEnd => exact hkeep ht
  | poolCrash => exact hkeep ht

theorem pool_step {p : ℕ} {y : PoolSession} (hy : s'.pool.lookup p = some y)
    (hs : s.step a = some s') :
    (∃ x, s.pool.lookup p = some x ∧ y.uid = x.uid ∧ y.holder = x.holder ∧
      (x.phase = .closed → y.phase = .closed)) ∨
    ∃ now, s.daemon.locks.acquire now y.uid .relay y.holder none = .ok s'.daemon.locks := by
  have hkeep : s.pool.lookup p = some y → (∃ x, s.pool.lookup p = some x ∧ y.uid = x.uid ∧
      y.holder = x.holder ∧ (x.phase = .closed → y.phase = .closed)) ∨
      ∃ now, s.daemon.locks.acquire now y.uid .relay y.holder none = .ok s'.daemon.locks :=
    fun hp => Or.inl ⟨y, hp, rfl, rfl, id⟩
  cases step_cases hs with
  | forceUnlock =>
    rw [shutTracked_pool] at hy
    exact hkeep hy
  | detachVirtual =>
    rw [shutTracked_pool] at hy
    exact hkeep hy
  | poolAccept hnew hr hl hfresh =>
    rcases Dict.lookup_insert_cases hy with (⟨-, rfl⟩ | hy)
    · exact Or.inr ⟨_, hl⟩
    · exact hkeep hy
  | pool hq hu =>
    rcases Dict.lookup_insert_cases hy with (⟨rfl, rfl⟩ | hy)
    · exact Or.inl ⟨_, hq, PoolSession.step_keeps hu⟩
    · exact hkeep hy
  | poolEnd =>
    exact hkeep (Dict.lookup_erase_eq_some hy).2
  | poolCrash =>
    exact hkeep (Dict.lookup_erase_eq_some hy).2
  -- the other steps are about connections and the daemon
  | _ => exact hkeep hy

end System

end MbTools.Api
