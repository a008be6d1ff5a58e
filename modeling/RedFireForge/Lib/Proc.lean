/-
# `RedFireForge.Lib.Proc` — structured concurrency

An asynchronous program that only awaits what it calls is a tree: a frame
`call f sub` is a suspended invocation `f` awaiting `sub`, and `both l r` is two
processes running side by side (`Promise.all`).  A frame whose awaited task is done
can be RESUMED; what it does then is the parameter `next`, which gives the new
shared state and the task that takes the frame's place.  The path chooses which
ready frame moves, so a list of paths is an interleaving.

`resume_spec` is the inversion lemma every invariant is derived from: a step
rewrites one frame inside a context and leaves the context alone.  `frames`
forgets the tree, `weigh` sums a weight that may look at the chain of callers,
`clear` counts frames none of whose awaited frames meets a test, and all of them
split along a context.
-/
import Mathlib.Algebra.BigOperators.Group.Multiset.Basic
import Mathlib.Algebra.GroupWithZero.Nat
import Mathlib.Algebra.Order.Group.Multiset
import Mathlib.Tactic.Common

namespace RedFireForge.Lib

/-- Which side of a `both` moves. -/
inductive Side
  | left
  | right
deriving DecidableEq, Repr

/-- A tree of suspended invocations. -/
inductive Proc (F : Type)
  | done
  | call (f : F) (sub : Proc F)
  | both (l r : Proc F)
deriving DecidableEq, Repr

namespace Proc

variable {F S : Type}

/-- Nothing is left to run. -/
def isDone : Proc F → Bool
  | done => true
  | call _ _ => false
  | both l r => l.isDone && r.isDone

/-- `Promise.all`. -/
def all : List (Proc F) → Proc F
  | [] => done
  | t :: ts => both t (all ts)

/-- One step: the path walks down the `both` nodes, and the first frame whose
awaited task is done is resumed. -/
def resume (next : F → Option (S × Proc F)) : List Side → Proc F → Option (S × Proc F)
  | _, done => none
  | p, call f sub =>
      if sub.isDone then next f
      else (resume next p sub).map (fun (s, t) => (s, call f t))
  | [], both _ _ => none
  | .left :: p, both l r => (resume next p l).map (fun (s, t) => (s, both t r))
  | .right :: p, both l r => (resume next p r).map (fun (s, t) => (s, both l t))

/-- The frames of a task, forgetting who awaits whom. -/
def frames : Proc F → Multiset F
  | done => 0
  | call f sub => f ::ₘ sub.frames
  | both l r => l.frames + r.frames

/-- A sum of weights, each of which may look at the chain of callers. -/
def weigh (w : List F → F → ℕ) : List F → Proc F → ℕ
  | _, done => 0
  | anc, call f sub => w anc f + weigh w (f :: anc) sub
  | anc, both l r => weigh w anc l + weigh w anc r

/-- A property of every frame, each with its chain of callers. -/
def Each (P : List F → F → Prop) : List F → Proc F → Prop
  | _, done => True
  | anc, call f sub => P anc f ∧ sub.Each P (f :: anc)
  | anc, both l r => l.Each P anc ∧ r.Each P anc

@[simp] theorem frames_done : (done : Proc F).frames = 0 := rfl
@[simp] theorem frames_call (f : F) (sub : Proc F) : (call f sub).frames = f ::ₘ sub.frames := rfl
@[simp] theorem frames_both (l r : Proc F) : (both l r).frames = l.frames + r.frames := rfl

theorem frames_of_isDone : ∀ {t : Proc F}, t.isDone = true → t.frames = 0
  | done, _ => rfl
  | call _ _, h => by cases h
  | both l r, h => by
      simp only [isDone, Bool.and_eq_true] at h
      simp only [frames_both, frames_of_isDone h.1, frames_of_isDone h.2, add_zero]

theorem weigh_of_isDone {w : List F → F → ℕ} {anc : List F} :
    ∀ {t : Proc F}, t.isDone = true → t.weigh w anc = 0
  | done, _ => rfl
  | call _ _, h => by cases h
  | both l r, h => by
      simp only [isDone, Bool.and_eq_true] at h
      simp only [weigh, weigh_of_isDone h.1, weigh_of_isDone h.2, add_zero]

@[simp] theorem frames_all (ts : List (Proc F)) :
    (all ts).frames = (ts.map frames).sum := by
  induction ts with
  | nil => rfl
  | cons t ts ih => simp only [all, frames_both, ih, List.map_cons, List.sum_cons]

theorem each_all {P : List F → F → Prop} {anc : List F} {ts : List (Proc F)} :
    (all ts).Each P anc ↔ ∀ t ∈ ts, t.Each P anc := by
  induction ts with
  | nil => simp [all, Each]
  | cons t ts ih => simp [all, Each, ih]

theorem weigh_all (w : List F → F → ℕ) (anc : List F) (ts : List (Proc F)) :
    (all ts).weigh w anc = (ts.map (weigh w anc)).sum := by
  induction ts with
  | nil => rfl
  | cons t ts ih => simp only [all, weigh, ih, List.map_cons, List.sum_cons]

end Proc

/-- A task with a hole where a frame is resumed. -/
inductive Ctx (F : Type)
  | hole
  | call (f : F) (c : Ctx F)
  | left (c : Ctx F) (r : Proc F)
  | right (l : Proc F) (c : Ctx F)

namespace Ctx

variable {F S : Type}

def plug : Ctx F → Proc F → Proc F
  | hole, t => t
  | call f c, t => .call f (c.plug t)
  | left c r, t => .both (c.plug t) r
  | right l c, t => .both l (c.plug t)

def frames : Ctx F → Multiset F
  | hole => 0
  | call f c => f ::ₘ c.frames
  | left c r => c.frames + r.frames
  | right l c => l.frames + c.frames

/-- The callers of the hole, innermost first, on top of `anc`. -/
def callers : List F → Ctx F → List F
  | anc, hole => anc
  | anc, call f c => callers (f :: anc) c
  | anc, left c _ => callers anc c
  | anc, right _ c => callers anc c

def weigh (w : List F → F → ℕ) : List F → Ctx F → ℕ
  | _, hole => 0
  | anc, call f c => w anc f + weigh w (f :: anc) c
  | anc, left c r => weigh w anc c + r.weigh w anc
  | anc, right l c => l.weigh w anc + weigh w anc c

def Each (P : List F → F → Prop) : List F → Ctx F → Prop
  | _, hole => True
  | anc, call f c => P anc f ∧ c.Each P (f :: anc)
  | anc, left c r => c.Each P anc ∧ r.Each P anc
  | anc, right l c => l.Each P anc ∧ c.Each P anc

@[simp] theorem frames_plug (c : Ctx F) (t : Proc F) :
    (c.plug t).frames = c.frames + t.frames := by
  induction c with
  | hole => simp [plug, frames]
  | call f c ih => simp only [plug, Proc.frames_call, ih, frames, Multiset.cons_add]
  | left c r ih => simp only [plug, Proc.frames_both, ih, frames, add_right_comm]
  | right l c ih => simp only [plug, Proc.frames_both, ih, frames, add_assoc]

theorem weigh_plug (w : List F → F → ℕ) (c : Ctx F) (t : Proc F) (anc : List F) :
    (c.plug t).weigh w anc = c.weigh w anc + t.weigh w (c.callers anc) := by
  induction c generalizing anc with
  | hole => simp [plug, weigh, callers]
  | call f c ih => simp only [plug, Proc.weigh, ih, weigh, callers, add_assoc]
  | left c r ih => simp only [plug, Proc.weigh, ih, weigh, callers]; omega
  | right l c ih => simp only [plug, Proc.weigh, ih, weigh, callers]; omega

theorem each_plug {P : List F → F → Prop} {c : Ctx F} {t : Proc F} {anc : List F} :
    (c.plug t).Each P anc ↔ c.Each P anc ∧ t.Each P (c.callers anc) := by
  induction c generalizing anc with
  | hole => simp [plug, Each, callers]
  | call f c ih => simp only [plug, Proc.Each, ih, Each, callers, and_assoc]
  | left c r ih => simp only [plug, Proc.Each, ih, Each, callers]; tauto
  | right l c ih => simp only [plug, Proc.Each, ih, Each, callers]; tauto

end Ctx

namespace Proc

variable {F S : Type}

/-- The frame a path leads to, and the context it is resumed in. -/
def split : List Side → Proc F → Option (Ctx F × F)
  | _, done => none
  | p, call f sub =>
      if sub.isDone then some (.hole, f) else (split p sub).map (fun (c, g) => (.call f c, g))
  | [], both _ _ => none
  | .left :: p, both l r => (split p l).map (fun (c, g) => (.left c r, g))
  | .right :: p, both l r => (split p r).map (fun (c, g) => (.right l c, g))

/-- The same, with only the callers of the context, innermost first. -/
def redex (anc : List F) (p : List Side) (t : Proc F) : Option (List F × F) :=
  (split p t).map (fun (c, f) => (c.callers anc, f))

/-- **Inversion of a step**: the frame `f` the path leads to, all of whose
awaited tasks are done, is replaced by the task `next` gives for it, inside an
unchanged context. -/
theorem resume_spec {next : F → Option (S × Proc F)} :
    ∀ {t t' : Proc F} {p : List Side} {s : S}, t.resume next p = some (s, t') →
      ∃ (c : Ctx F) (f : F) (sub r : Proc F), sub.isDone = true ∧ next f = some (s, r) ∧
        t = c.plug (.call f sub) ∧ t' = c.plug r ∧ t.split p = some (c, f)
  | done, _, p, _, h => by cases p <;> cases h
  | call f sub, t', p, s, h => by
      by_cases hd : sub.isDone = true
      · simp only [resume, if_pos hd] at h
        exact ⟨.hole, f, sub, t', hd, h, rfl, rfl, by simp only [split, if_pos hd]⟩
      · simp only [resume, if_neg hd, Option.map_eq_some_iff, Prod.exists, Prod.mk.injEq] at h
        obtain ⟨s₁, t₁, h₁, rfl, rfl⟩ := h
        obtain ⟨c, g, sub', r, hd', hn, rfl, rfl, hs⟩ := resume_spec h₁
        exact ⟨.call f c, g, sub', r, hd', hn, rfl, rfl, by
          simp only [split, if_neg hd, hs]; rfl⟩
  | both l r, t', [], s, h => by cases h
  | both l r, t', .left :: p, s, h => by
      simp only [resume, Option.map_eq_some_iff, Prod.exists, Prod.mk.injEq] at h
      obtain ⟨s₁, t₁, h₁, rfl, rfl⟩ := h
      obtain ⟨c, g, sub, u, hd, hn, rfl, rfl, hs⟩ := resume_spec h₁
      exact ⟨.left c r, g, sub, u, hd, hn, rfl, rfl, by simp only [split, hs]; rfl⟩
  | both l r, t', .right :: p, s, h => by
      simp only [resume, Option.map_eq_some_iff, Prod.exists, Prod.mk.injEq] at h
      obtain ⟨s₁, t₁, h₁, rfl, rfl⟩ := h
      obtain ⟨c, g, sub, u, hd, hn, rfl, rfl, hs⟩ := resume_spec h₁
      exact ⟨.right l c, g, sub, u, hd, hn, rfl, rfl, by simp only [split, hs]; rfl⟩

/-- A stack of frames, innermost first, each awaiting the one before. -/
def nest : List F → Proc F → Proc F
  | [], t => t
  | f :: fs, t => nest fs (.call f t)

/-- The top of a stack is what a step moves. -/
theorem resume_nest {next : F → Option (S × Proc F)} :
    ∀ (fs : List F) {t : Proc F}, t.isDone = false →
      (nest fs t).resume next [] = (t.resume next []).map (fun (s, t) => (s, nest fs t))
  | [], t, _ => by simp [nest]
  | f :: fs, t, h => by
      rw [nest, resume_nest fs rfl, resume, if_neg (by simp [h]), Option.map_map]
      rfl

end Proc

/-! ## Frames that wait for no frame of a kind -/

namespace Proc

variable {F : Type}

/-- Some frame meets `p`. -/
def has (p : F → Bool) : Proc F → Bool
  | done => false
  | call f sub => p f || sub.has p
  | both l r => l.has p || r.has p

/-- The number of frames that meet `h` and await no frame that meets `p`. -/
def clear (h p : F → Bool) : Proc F → ℕ
  | done => 0
  | call f sub => (h f && !sub.has p).toNat + sub.clear h p
  | both l r => l.clear h p + r.clear h p

theorem has_eq_true {p : F → Bool} {t : Proc F} : t.has p = true ↔ ∃ f ∈ t.frames, p f = true := by
  induction t with
  | done => simp [has]
  | call f sub ih => simp [has, ih]
  | both l r ihl ihr =>
      simp only [has, Bool.or_eq_true, ihl, ihr, frames_both, Multiset.mem_add]
      constructor
      · rintro (⟨f, hf, hp⟩ | ⟨f, hf, hp⟩)
        · exact ⟨f, Or.inl hf, hp⟩
        · exact ⟨f, Or.inr hf, hp⟩
      · rintro ⟨f, hf | hf, hp⟩
        · exact Or.inl ⟨f, hf, hp⟩
        · exact Or.inr ⟨f, hf, hp⟩

theorem has_eq_false {p : F → Bool} {t : Proc F} :
    t.has p = false ↔ ∀ f ∈ t.frames, p f = false := by
  rw [← Bool.not_eq_true, has_eq_true]
  simp

theorem has_congr {p p' : F → Bool} {t : Proc F} (hp : ∀ f ∈ t.frames, p f = p' f) :
    t.has p = t.has p' := by
  rw [Bool.eq_iff_iff, has_eq_true, has_eq_true]
  exact ⟨fun ⟨f, hf, h⟩ => ⟨f, hf, hp f hf ▸ h⟩, fun ⟨f, hf, h⟩ => ⟨f, hf, (hp f hf).symm ▸ h⟩⟩

theorem clear_congr {h h' p p' : F → Bool} {t : Proc F} (hh : ∀ f ∈ t.frames, h f = h' f)
    (hp : ∀ f ∈ t.frames, p f = p' f) : t.clear h p = t.clear h' p' := by
  induction t with
  | done => rfl
  | call f sub ih =>
      simp only [frames_call, Multiset.mem_cons, forall_eq_or_imp] at hh hp
      simp only [clear, hh.1, has_congr hp.2, ih hh.2 hp.2]
  | both l r ihl ihr =>
      simp only [frames_both, Multiset.mem_add, or_imp, forall_and] at hh hp
      simp only [clear, ihl hh.1 hp.1, ihr hh.2 hp.2]

theorem clear_eq_zero {h p : F → Bool} {t : Proc F} (hh : ∀ f ∈ t.frames, h f = false) :
    t.clear h p = 0 := by
  induction t with
  | done => rfl
  | call f sub ih =>
      simp only [frames_call, Multiset.mem_cons, forall_eq_or_imp] at hh
      simp [clear, hh.1, ih hh.2]
  | both l r ihl ihr =>
      simp only [frames_both, Multiset.mem_add, or_imp, forall_and] at hh
      simp [clear, ihl hh.1, ihr hh.2]

/-- No caller of a frame meets `q`, if none on top does and no frame does. -/
theorem each_of_frames {q : F → Bool} {anc : List F} {t : Proc F}
    (hanc : anc.all (fun f => !q f) = true) (ht : ∀ f ∈ t.frames, q f = false) :
    t.Each (fun anc _ => anc.all (fun f => !q f) = true) anc := by
  induction t generalizing anc with
  | done => trivial
  | call g sub ih =>
      simp only [frames_call, Multiset.mem_cons, forall_eq_or_imp] at ht
      exact ⟨hanc, ih (by simp [ht.1, hanc]) ht.2⟩
  | both l r ihl ihr =>
      simp only [frames_both, Multiset.mem_add, or_imp, forall_and] at ht
      exact ⟨ihl hanc ht.1, ihr hanc ht.2⟩

/-- Where no caller of a frame meets `q`, a frame that meets `q` awaits nothing. -/
theorem frames_of_each {q : F → Bool} {anc : List F} {t : Proc F}
    (h : t.Each (fun anc _ => anc.all (fun f => !q f) = true) anc) {f : F} (hf : f ∈ anc)
    (hq : q f = true) : t.frames = 0 := by
  induction t generalizing anc with
  | done => rfl
  | call g sub ih =>
      have := List.all_eq_true.mp h.1 f hf
      simp [hq] at this
  | both l r ihl ihr => rw [frames_both, ihl h.1 hf, ihr h.2 hf, add_zero]

/-- Such a frame is counted wherever it is. -/
theorem clear_pos {h p q : F → Bool} {anc : List F} {t : Proc F}
    (ht : t.Each (fun anc _ => anc.all (fun f => !q f) = true) anc) {f : F} (hf : f ∈ t.frames)
    (hq : q f = true) (hh : h f = true) : 0 < t.clear h p := by
  induction t generalizing anc with
  | done => cases hf
  | call g sub ih =>
      rcases Multiset.mem_cons.mp hf with rfl | hf
      · have hsub : sub.has p = false := by
          rw [has_eq_false, frames_of_each ht.2 List.mem_cons_self hq]
          simp
        simp only [clear, hh, hsub, Bool.not_false, Bool.and_self, Bool.toNat_true]
        omega
      · have := ih ht.2 hf
        simp only [clear]
        omega
  | both l r ihl ihr =>
      simp only [clear]
      rcases Multiset.mem_add.mp hf with hf | hf
      · have := ihl ht.1 hf
        omega
      · have := ihr ht.2 hf
        omega

end Proc

namespace Ctx

variable {F : Type}

/-- Some frame of the context meets `p`. -/
def has (p : F → Bool) : Ctx F → Bool
  | hole => false
  | call f c => p f || c.has p
  | left c r => c.has p || r.has p
  | right l c => l.has p || c.has p

/-- `Proc.clear` of the context, when `inner` tells whether the hole has a frame
that meets `p`. -/
def clear (h p : F → Bool) (inner : Bool) : Ctx F → ℕ
  | hole => 0
  | call f c => (h f && !(c.has p || inner)).toNat + c.clear h p inner
  | left c r => c.clear h p inner + r.clear h p
  | right l c => l.clear h p + c.clear h p inner

theorem has_plug (p : F → Bool) (c : Ctx F) (t : Proc F) :
    (c.plug t).has p = (c.has p || t.has p) := by
  induction c with
  | hole => simp [plug, has]
  | call f c ih => simp only [plug, Proc.has, ih, has, Bool.or_assoc]
  | left c r ih => simp only [plug, Proc.has, ih, has, Bool.or_right_comm]
  | right l c ih => simp only [plug, Proc.has, ih, has, Bool.or_assoc]

theorem clear_plug (h p : F → Bool) (c : Ctx F) (t : Proc F) :
    (c.plug t).clear h p = c.clear h p (t.has p) + t.clear h p := by
  induction c with
  | hole => simp [plug, clear]
  | call f c ih => simp only [plug, Proc.clear, ih, has_plug, clear, Nat.add_assoc]
  | left c r ih => simp only [plug, Proc.clear, ih, clear]; omega
  | right l c ih => simp only [plug, Proc.clear, ih, clear]; omega

/-- A frame inside the hole that meets `p` can only lower the count. -/
theorem clear_true_le (h p : F → Bool) (inner : Bool) (c : Ctx F) :
    c.clear h p true ≤ c.clear h p inner := by
  induction c with
  | hole => rfl
  | call f c ih =>
      simp only [clear, Bool.or_true, Bool.not_true, Bool.and_false, Bool.toNat_false]
      omega
  | left c r ih => exact Nat.add_le_add_right ih _
  | right l c ih => exact Nat.add_le_add_left ih _

theorem has_congr {p p' : F → Bool} {c : Ctx F} (hp : ∀ f ∈ c.frames, p f = p' f) :
    c.has p = c.has p' := by
  have hplug : (c.plug .done).has p = (c.plug .done).has p' := Proc.has_congr (by simpa using hp)
  simpa [has_plug, Proc.has] using hplug

theorem clear_congr {h h' p p' : F → Bool} {inner : Bool} {c : Ctx F}
    (hh : ∀ f ∈ c.frames, h f = h' f) (hp : ∀ f ∈ c.frames, p f = p' f) :
    c.clear h p inner = c.clear h' p' inner := by
  induction c with
  | hole => rfl
  | call f c ih =>
      simp only [frames, Multiset.mem_cons, forall_eq_or_imp] at hh hp
      simp only [clear, hh.1, has_congr hp.2, ih hh.2 hp.2]
  | left c r ih =>
      simp only [frames, Multiset.mem_add, or_imp, forall_and] at hh hp
      simp only [clear, ih hh.1 hp.1, Proc.clear_congr hh.2 hp.2]
  | right l c ih =>
      simp only [frames, Multiset.mem_add, or_imp, forall_and] at hh hp
      simp only [clear, ih hh.2 hp.2, Proc.clear_congr hh.1 hp.1]

end Ctx

/-! ## Counting frames -/

/-- How many of the frames meet a test. -/
def tally {F : Type} (p : F → Bool) (m : Multiset F) : ℕ := m.countP (p · = true)

section Tally

variable {F : Type} (p : F → Bool)

@[simp] theorem tally_zero : tally p 0 = 0 := Multiset.countP_zero _

@[simp] theorem tally_cons (f : F) (m : Multiset F) :
    tally p (f ::ₘ m) = tally p m + if p f = true then 1 else 0 :=
  Multiset.countP_cons _ _ _

@[simp] theorem tally_singleton (f : F) : tally p {f} = if p f = true then 1 else 0 := by
  rw [← Multiset.cons_zero, tally_cons, tally_zero, Nat.zero_add]

@[simp] theorem tally_add (m m' : Multiset F) : tally p (m + m') = tally p m + tally p m' :=
  Multiset.countP_add _ _ _

@[simp] theorem tally_coe (fs : List F) : tally p (fs : Multiset F) = fs.countP p := by
  simp [tally]

theorem tally_eq_zero {p : F → Bool} {m : Multiset F} :
    tally p m = 0 ↔ ∀ f ∈ m, p f = false := by
  simp [tally, Multiset.countP_eq_zero]

theorem tally_pos {p : F → Bool} {m : Multiset F} : 0 < tally p m ↔ ∃ f ∈ m, p f = true :=
  Multiset.countP_pos

end Tally

end RedFireForge.Lib
