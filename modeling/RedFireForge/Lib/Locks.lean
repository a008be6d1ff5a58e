/-
# `RedFireForge.Lib.Locks` — threads that lock mutexes

A program acquires guards, releases them and accesses the shared state; several guards may be
of one mutex, so that a guard names a place of the program.  One step of a thread is one
acquisition, one release or one access, and what is not in the programs (an order of
iteration, a clock) comes with the step.

`Outline` proves a program against what the other threads may do while they hold the guards
that they can hold at the same time.  A state in which some rank of the mutexes grows from
the guards held to the guard wanted is no deadlock.
-/
import Mathlib.Data.List.MinMax
import Mathlib.Data.List.Nodup
import RedFireForge.Lib.Run

namespace RedFireForge.Lib

variable {G E S A B M : Type}

/-- A program with its result: `G` are its guards, `E` is what comes with a step. -/
inductive Prog (G E S A : Type) where
  | ret (a : A)
  | lock (g : G) (next : Prog G E S A)
  | unlock (g : G) (next : Prog G E S A)
  /-- goes on as the state before it says -/
  | access (update : E → S → S) (next : E → S → Prog G E S A)

namespace Prog

def bind : Prog G E S A → (A → Prog G E S B) → Prog G E S B
  | .ret a, f => f a
  | .lock g p, f => .lock g (p.bind f)
  | .unlock g p, f => .unlock g (p.bind f)
  | .access update next, f => .access update fun e s => (next e s).bind f

instance : Monad (Prog G E S) where
  pure := .ret
  bind := .bind

def acquire (g : G) : Prog G E S Unit := .lock g (.ret ())

def release (g : G) : Prog G E S Unit := .unlock g (.ret ())

def change (f : E → S → S × A) : Prog G E S A := .access (fun e s => (f e s).1) fun e s => .ret (f e s).2

def read (f : E → S → A) : Prog G E S A := change fun e s => (s, f e s)

def write (update : E → S → S) : Prog G E S Unit := change fun e s => (update e s, ())

/-- `p` under a guard. -/
def within (g : G) (p : Prog G E S A) : Prog G E S A := do
  acquire g
  let a ← p
  release g
  pure a

/-- The elements that `p` gives for the elements of a list, in turn. -/
def filterMap (p : A → Prog G E S (Option B)) : List A → Prog G E S (List B)
  | [] => pure []
  | a :: l => do
      let b ← p a
      let bs ← filterMap p l
      pure (b.toList ++ bs)

def finished : Prog G E S A → Bool
  | .ret _ => true
  | _ => false

/-- The guard that is acquired next. -/
def wanted : Prog G E S A → Option G
  | .lock g _ => some g
  | _ => none

/-- The guard that is released next. -/
def released : Prog G E S A → Option G
  | .unlock g _ => some g
  | _ => none

end Prog

structure Thread (G E S : Type) where
  held : List G
  prog : Prog G E S Unit

/-- The thread holds the guard, and has more to do before it releases it. -/
def Thread.busy [DecidableEq G] (g : G) (t : Thread G E S) : Bool :=
  decide (g ∈ t.held) && t.prog.released != some g

structure Threads (G E S : Type) where
  shared : S
  threads : List (Thread G E S)

namespace Threads

def start (shared : S) (progs : List (Prog G E S Unit)) : Threads G E S :=
  ⟨shared, progs.map (⟨[], ·⟩)⟩

variable [DecidableEq G] [DecidableEq M] (mutex : G → M) (s : Threads G E S)

/-- No thread holds a guard of the mutex. -/
def free (m : M) : Bool := s.threads.all fun t => t.held.all fun g => mutex g != m

/-- The thread can take a step. -/
def canStep (i : ℕ) : Bool :=
  s.threads[i]?.any fun t => !t.prog.finished && (t.prog.wanted.all fun g => s.free mutex (mutex g))

/-- The step of a thread. -/
def step (i : ℕ) (e : E) (t : Thread G E S) : Threads G E S :=
  match t with
  | ⟨_, .ret _⟩ => s
  | ⟨held, .lock g p⟩ => { s with threads := s.threads.set i ⟨g :: held, p⟩ }
  | ⟨held, .unlock g p⟩ => { s with threads := s.threads.set i ⟨held.erase g, p⟩ }
  | ⟨held, .access update next⟩ => ⟨update e s.shared, s.threads.set i ⟨held, next e s.shared⟩⟩

def next (l : ℕ × E) (s : Threads G E S) : Option (Threads G E S) :=
  if s.canStep mutex l.1 then s.threads[l.1]?.map (s.step l.1 l.2) else none

end Threads

/-! ## Exclusion -/

/-- Guards that two threads can hold at the same time. -/
def Apart (mutex : G → M) (held held' : List G) : Prop := ∀ g ∈ held, ∀ h ∈ held', mutex g ≠ mutex h

namespace Threads

variable [DecidableEq G] [DecidableEq M] {mutex : G → M} {s s' : Threads G E S} {i : ℕ} {e : E}
  {t : Thread G E S}

/-- Each mutex is held once. -/
structure Exclusive (mutex : G → M) (s : Threads G E S) : Prop where
  once : ∀ t ∈ s.threads, (t.held.map mutex).Nodup
  apart : ∀ (i j : ℕ) (t u : Thread G E S), s.threads[i]? = some t → s.threads[j]? = some u → i ≠ j →
    Apart mutex t.held u.held

theorem next_eq_some (h : next mutex (i, e) s = some s') :
    ∃ t, s.threads[i]? = some t ∧ t.prog.finished = false ∧
      (∀ g, t.prog.wanted = some g → s.free mutex (mutex g) = true) ∧ s' = s.step i e t := by
  unfold next at h
  split at h
  next hcan =>
    obtain ⟨t, ht, hs'⟩ := Option.map_eq_some_iff.mp h
    simp only [canStep] at hcan
    rw [ht, Option.any_some, Bool.and_eq_true, Bool.not_eq_true', Option.all_eq_true] at hcan
    exact ⟨t, ht, hcan.1, hcan.2, hs'.symm⟩
  next => cases h

theorem canStep_iff [Nonempty E] : s.canStep mutex i = true ↔ ∃ e s', next mutex (i, e) s = some s' := by
  constructor
  · intro hcan
    obtain ⟨e⟩ := ‹Nonempty E›
    obtain ⟨t, ht, -⟩ := (Option.any_eq_true _ _).mp hcan
    refine ⟨e, s.step i e t, ?_⟩
    rw [next, if_pos hcan, ht]
    rfl
  · rintro ⟨e, s', h⟩
    unfold next at h
    split at h
    next hcan => exact hcan
    next => cases h

omit [DecidableEq G] in
theorem free_iff {m : M} : s.free mutex m = true ↔ ∀ t ∈ s.threads, ∀ g ∈ t.held, mutex g ≠ m := by
  simp only [free, List.all_eq_true, bne_iff_ne]

omit [DecidableEq G] [DecidableEq M] in
theorem start_exclusive (shared : S) (progs : List (Prog G E S Unit)) :
    Exclusive mutex (start shared progs) := by
  have hnil : ∀ t ∈ (start shared progs).threads, t.held = [] := by
    intro t ht
    obtain ⟨p, -, rfl⟩ := List.mem_map.mp ht
    rfl
  constructor
  · intro t ht
    rw [hnil t ht]
    exact List.nodup_nil
  · intro i j t u ht hu _ g hg
    rw [hnil t (List.mem_of_getElem? ht)] at hg
    cases hg

theorem get_set {α : Type} {l : List α} {a b : α} {j : ℕ} (h : (l.set i a)[j]? = some b) :
    i = j ∧ a = b ∨ i ≠ j ∧ l[j]? = some b := by
  rw [List.getElem?_set] at h
  split at h
  next hij =>
    split at h <;> cases h
    exact Or.inl ⟨hij, rfl⟩
  next hij => exact Or.inr ⟨hij, h⟩

omit [DecidableEq G] [DecidableEq M] in
/-- One thread goes on with guards that no other thread excludes. -/
theorem Exclusive.set (h : Exclusive mutex s) {held : List G} {p : Prog G E S Unit} {shared : S}
    (hnodup : (held.map mutex).Nodup)
    (hapart : ∀ j u, s.threads[j]? = some u → i ≠ j → Apart mutex held u.held) :
    Exclusive mutex ⟨shared, s.threads.set i ⟨held, p⟩⟩ := by
  constructor
  · intro t ht
    rcases List.mem_or_eq_of_mem_set ht with ht | rfl
    · exact h.once t ht
    · exact hnodup
  · intro j k t u ht hu hjk
    rcases get_set ht with ⟨rfl, rfl⟩ | ⟨hij, ht⟩ <;> rcases get_set hu with ⟨rfl, rfl⟩ | ⟨hik, hu⟩
    · exact absurd rfl hjk
    · exact hapart k u hu hik
    · exact fun g hg g' hg' heq => hapart j t ht hij g' hg' g hg heq.symm
    · exact h.apart j k t u ht hu hjk

theorem Exclusive.step (h : Exclusive mutex s) (hnext : next mutex (i, e) s = some s') :
    Exclusive mutex s' := by
  obtain ⟨⟨held, p⟩, ht, -, hfree, rfl⟩ := next_eq_some hnext
  have honce := h.once _ (List.mem_of_getElem? ht)
  cases p with
  | ret => exact h
  | lock g p =>
      have hfree := free_iff.mp (hfree g rfl)
      refine h.set ?_ fun j u hu hij => ?_
      · rw [List.map_cons, List.nodup_cons]
        refine ⟨fun hmem => ?_, honce⟩
        obtain ⟨g', hg', heq⟩ := List.mem_map.mp hmem
        exact hfree _ (List.mem_of_getElem? ht) g' hg' heq
      · intro g' hg' h' hh'
        rcases List.mem_cons.mp hg' with rfl | hg'
        · exact (hfree u (List.mem_of_getElem? hu) h' hh').symm
        · exact h.apart i j _ u ht hu hij g' hg' h' hh'
  | unlock g p =>
      refine h.set (honce.sublist (List.erase_sublist.map _)) fun j u hu hij g' hg' => ?_
      exact h.apart i j _ u ht hu hij g' (List.mem_of_mem_erase hg')
  | access update next => exact h.set honce fun j u hu hij => h.apart i j _ u ht hu hij

/-- A thread comes to be busy under a guard when it acquires it. -/
theorem busy_step (h : Exclusive mutex s) (hnext : next mutex (i, e) s = some s') {g : G} {u : Thread G E S}
    (hu : u ∈ s'.threads) (hbusy : u.busy g = true) :
    (∃ t ∈ s.threads, t.busy g = true) ∨ ∃ t, s.threads[i]? = some t ∧ t.prog.wanted = some g := by
  obtain ⟨⟨held, p⟩, ht, -, -, rfl⟩ := next_eq_some hnext
  have hmem := List.mem_of_getElem? ht
  rw [Thread.busy, Bool.and_eq_true, decide_eq_true_eq] at hbusy
  have hbefore : ∀ {q : Prog G E S Unit}, ⟨held, q⟩ ∈ s.threads → g ∈ held → q.released ≠ some g →
      ∃ t ∈ s.threads, t.busy g = true := fun ht hg hreleased =>
    ⟨_, ht, by rw [Thread.busy, Bool.and_eq_true, decide_eq_true_eq]; exact ⟨hg, bne_iff_ne.mpr hreleased⟩⟩
  have hother : u ∈ s.threads → ∃ t ∈ s.threads, t.busy g = true := fun hu =>
    ⟨u, hu, by rw [Thread.busy, Bool.and_eq_true, decide_eq_true_eq]; exact hbusy⟩
  cases p with
  | ret => exact Or.inl (hother hu)
  | lock g' p =>
      rcases List.mem_or_eq_of_mem_set hu with hu | rfl
      · exact Or.inl (hother hu)
      · rcases List.mem_cons.mp hbusy.1 with rfl | hg
        · exact Or.inr ⟨_, ht, rfl⟩
        · exact Or.inl (hbefore hmem hg nofun)
  | unlock g' p =>
      rcases List.mem_or_eq_of_mem_set hu with hu | rfl
      · exact Or.inl (hother hu)
      · -- the guard released is not held any more
        have hne : g ≠ g' := by
          rintro rfl
          exact List.Nodup.not_mem_erase (List.Nodup.of_map mutex (h.once _ hmem)) hbusy.1
        exact Or.inl (hbefore hmem (List.mem_of_mem_erase hbusy.1) fun heq => hne (Option.some.inj heq).symm)
  | access update next =>
      rcases List.mem_or_eq_of_mem_set hu with hu | rfl
      · exact Or.inl (hother hu)
      · exact Or.inl (hbefore hmem hbusy.1 nofun)

end Threads

/-! ## Outlines -/

/-- What programs keep to: the guards that may be acquired under those held, what holds of the
shared state, and what an access may change under the guards held. -/
structure Discipline (G S : Type) where
  allowed : List G → G → Prop
  inv : S → Prop
  guar : List G → S → S → Prop

namespace Discipline

variable [DecidableEq G] (D : Discipline G S) (mutex : G → M)

/-- No access of another thread makes `R` false. -/
def Stable (held : List G) (R : S → Prop) : Prop :=
  ∀ held' s s', Apart mutex held held' → D.guar held' s s' → D.inv s → R s → R s'

/-- The program keeps to the discipline, from guards held and a fact of the state; and so does
what comes after it, by `Q`. -/
def Outline : Prog G E S A → List G → (S → Prop) → (A → List G → (S → Prop) → Prop) → Prop
  | .ret a, held, R, Q => Q a held R
  | .lock g p, held, R, Q => D.allowed held g ∧ Outline p (g :: held) R Q
  | .unlock g p, held, R, Q =>
      ∃ R' : S → Prop, (∀ s, R s → R' s) ∧ D.Stable mutex (held.erase g) R' ∧ Outline p (held.erase g) R' Q
  | .access update next, held, R, Q => ∀ e s, D.inv s → R s →
      D.inv (update e s) ∧ D.guar held s (update e s) ∧
        ∃ R' : S → Prop, R' (update e s) ∧ D.Stable mutex held R' ∧ Outline (next e s) held R' Q

variable {D} {mutex} {held : List G} {R : S → Prop}

theorem outline_bind {p : Prog G E S A} {f : A → Prog G E S B} {Q : B → List G → (S → Prop) → Prop}
    (h : D.Outline mutex p held R fun a held R => D.Outline mutex (f a) held R Q) :
    D.Outline mutex (p.bind f) held R Q := by
  induction p generalizing held R with
  | ret a => exact h
  | lock g p ih => exact ⟨h.1, ih h.2⟩
  | unlock g p ih =>
      obtain ⟨R', hweaker, hstable, h⟩ := h
      exact ⟨R', hweaker, hstable, ih h⟩
  | access update next ih =>
      intro e s hinv hR
      obtain ⟨hinv', hguar, R', hR', hstable, h⟩ := h e s hinv hR
      exact ⟨hinv', hguar, R', hR', hstable, ih e s h⟩

theorem outline_mono {p : Prog G E S A} {Q Q' : A → List G → (S → Prop) → Prop}
    (h : D.Outline mutex p held R Q) (himp : ∀ a held R, Q a held R → Q' a held R) :
    D.Outline mutex p held R Q' := by
  induction p generalizing held R with
  | ret a => exact himp a held R h
  | lock g p ih => exact ⟨h.1, ih h.2⟩
  | unlock g p ih =>
      obtain ⟨R', hweaker, hstable, h⟩ := h
      exact ⟨R', hweaker, hstable, ih h⟩
  | access update next ih =>
      intro e s hinv hR
      obtain ⟨hinv', hguar, R', hR', hstable, h⟩ := h e s hinv hR
      exact ⟨hinv', hguar, R', hR', hstable, ih e s h⟩

theorem outline_change {f : E → S → S × A} {Q : A → List G → (S → Prop) → Prop}
    (h : ∀ e s, D.inv s → R s → D.inv (f e s).1 ∧ D.guar held s (f e s).1 ∧
      ∃ R' : S → Prop, R' (f e s).1 ∧ D.Stable mutex held R' ∧ Q (f e s).2 held R') :
    D.Outline mutex (Prog.change f : Prog G E S A) held R Q := h

/-- A section: the guard is released in the end. -/
theorem outline_within {g : G} {p : Prog G E S A} {Q : A → List G → (S → Prop) → Prop}
    (hallowed : D.allowed held g)
    (h : D.Outline mutex p (g :: held) R fun a held' R' =>
      ∃ R'' : S → Prop, (∀ s, R' s → R'' s) ∧ D.Stable mutex (held'.erase g) R'' ∧ Q a (held'.erase g) R'') :
    D.Outline mutex (Prog.within g p) held R Q := by
  have hrest : D.Outline mutex (p.bind fun a => .unlock g (.ret a)) (g :: held) R Q :=
    outline_bind h
  exact ⟨hallowed, hrest⟩

omit [DecidableEq G] in
theorem stable_true : D.Stable mutex held fun _ => True := fun _ _ _ _ _ _ _ => trivial

/-- A section after which nothing need be known. -/
theorem outline_section {g : G} {p : Prog G E S A} {Q : A → List G → (S → Prop) → Prop}
    (hallowed : D.allowed held g)
    (h : D.Outline mutex p (g :: held) R fun a held' _ => held' = g :: held ∧ Q a held fun _ => True) :
    D.Outline mutex (Prog.within g p) held R Q := by
  refine outline_within hallowed (outline_mono h fun a held' R' hQ => ?_)
  obtain ⟨rfl, hQ⟩ := hQ
  rw [List.erase_cons_head]
  exact ⟨fun _ => True, fun _ _ => trivial, stable_true, hQ⟩

/-! ## Neutral programs -/

variable (D) (mutex) in
/-- The program leaves the guards as they are, and needs no fact of the state. -/
def Neutral (held : List G) (p : Prog G E S A) : Prop :=
  ∀ Q : A → List G → (S → Prop) → Prop, (∀ a, Q a held fun _ => True) →
    D.Outline mutex p held (fun _ => True) Q

theorem neutral_pure (a : A) : D.Neutral mutex held (pure a : Prog G E S A) := fun _ hQ => hQ a

theorem Neutral.bind {p : Prog G E S A} {f : A → Prog G E S B} (hp : D.Neutral mutex held p)
    (hf : ∀ a, D.Neutral mutex held (f a)) : D.Neutral mutex held (p >>= f) :=
  fun Q hQ => outline_bind (hp _ fun a => hf a Q hQ)

theorem Neutral.within {g : G} {p : Prog G E S A} (hallowed : D.allowed held g)
    (hp : D.Neutral mutex (g :: held) p) : D.Neutral mutex held (Prog.within g p) := fun _ hQ =>
  outline_section hallowed (hp _ fun a => ⟨rfl, hQ a⟩)

theorem neutral_change {f : E → S → S × A}
    (h : ∀ e s, D.inv s → D.inv (f e s).1 ∧ D.guar held s (f e s).1) :
    D.Neutral mutex held (Prog.change f : Prog G E S A) := fun _ hQ =>
  outline_change fun e s hinv _ =>
    ⟨(h e s hinv).1, (h e s hinv).2, fun _ => True, trivial, stable_true, hQ _⟩

theorem neutral_filterMap {p : A → Prog G E S (Option B)} (hp : ∀ a, D.Neutral mutex held (p a)) (l : List A) :
    D.Neutral mutex held (Prog.filterMap p l) := by
  induction l with
  | nil => exact neutral_pure []
  | cons a l ih => exact (hp a).bind fun b => ih.bind fun bs => neutral_pure _

/-! ## Runs of threads -/

/-- A thread with its outline: it holds nothing in the end. -/
def Outlined (D : Discipline G S) (mutex : G → M) (s : S) (t : Thread G E S) : Prop :=
  ∃ R : S → Prop, R s ∧ D.Stable mutex t.held R ∧ D.Outline mutex t.prog t.held R fun _ held _ => held = []

/-- All threads with their outlines. -/
structure Sound (D : Discipline G S) (mutex : G → M) (s : Threads G E S) : Prop where
  exclusive : s.Exclusive mutex
  inv : D.inv s.shared
  outlined : ∀ t ∈ s.threads, D.Outlined mutex s.shared t

theorem start_sound {shared : S} {progs : List (Prog G E S Unit)} (hinv : D.inv shared)
    (h : ∀ p ∈ progs, D.Outline mutex p [] (fun _ => True) fun _ held _ => held = []) :
    D.Sound mutex (Threads.start shared progs) where
  exclusive := Threads.start_exclusive shared progs
  inv := hinv
  outlined := by
    intro t ht
    obtain ⟨p, hp, rfl⟩ := List.mem_map.mp ht
    exact ⟨fun _ => True, trivial, fun _ _ _ _ _ _ _ => trivial, h p hp⟩

omit [DecidableEq G] in
theorem Stable.of_cons {g : G} (h : D.Stable mutex held R) : D.Stable mutex (g :: held) R :=
  fun held' s s' hapart => h held' s s' fun g' hg' => hapart g' (List.mem_cons_of_mem g hg')

theorem Outlined.held_nil {shared : S} {t : Thread G E S} (h : D.Outlined mutex shared t)
    (hfinished : t.prog.finished = true) : t.held = [] := by
  obtain ⟨R, -, -, hout⟩ := h
  obtain ⟨held, p⟩ := t
  cases p with
  | ret => exact hout
  | lock => cases hfinished
  | unlock => cases hfinished
  | access => cases hfinished

theorem Outlined.allowed {shared : S} {t : Thread G E S} (h : D.Outlined mutex shared t) {g : G}
    (hwanted : t.prog.wanted = some g) : D.allowed t.held g := by
  obtain ⟨R, -, -, hout⟩ := h
  obtain ⟨held, p⟩ := t
  cases p with
  | ret => cases hwanted
  | lock => cases hwanted; exact hout.1
  | unlock => cases hwanted
  | access => cases hwanted

variable [DecidableEq M]

/-- **A step keeps the outlines.** -/
theorem Sound.step {s s' : Threads G E S} {l : ℕ × E} (h : D.Sound mutex s)
    (hnext : Threads.next mutex l s = some s') : D.Sound mutex s' := by
  obtain ⟨i, e⟩ := l
  have hexclusive := h.exclusive.step hnext
  obtain ⟨⟨held, p⟩, ht, -, -, rfl⟩ := Threads.next_eq_some hnext
  obtain ⟨R, hR, hstable, hout⟩ := h.outlined _ (List.mem_of_getElem? ht)
  cases p with
  | ret => exact h
  | lock g p =>
      refine ⟨hexclusive, h.inv, fun u hu => ?_⟩
      rcases List.mem_or_eq_of_mem_set hu with hu | rfl
      · exact h.outlined u hu
      · exact ⟨R, hR, hstable.of_cons, hout.2⟩
  | unlock g p =>
      obtain ⟨R', hweaker, hstable', hout⟩ := hout
      refine ⟨hexclusive, h.inv, fun u hu => ?_⟩
      rcases List.mem_or_eq_of_mem_set hu with hu | rfl
      · exact h.outlined u hu
      · exact ⟨R', hweaker _ hR, hstable', hout⟩
  | access update next =>
      obtain ⟨hinv', hguar, R', hR', hstable', hout⟩ := hout e s.shared h.inv hR
      refine ⟨hexclusive, hinv', fun u hu => ?_⟩
      obtain ⟨j, hj⟩ := List.mem_iff_getElem?.mp hu
      rcases Threads.get_set hj with ⟨-, rfl⟩ | ⟨hij, hj⟩
      · exact ⟨R', hR', hstable', hout⟩
      · -- another thread, which holds other mutexes
        obtain ⟨Ru, hRu, hstableu, houtu⟩ := h.outlined u (List.mem_of_getElem? hj)
        have hapart := h.exclusive.apart j i u _ hj ht (Ne.symm hij)
        exact ⟨Ru, hstableu held _ _ hapart hguar h.inv hRu, hstableu, houtu⟩

/-- Every run keeps the outlines. -/
theorem Sound.run {s s' : Threads G E S} {ls : List (ℕ × E)} (h : D.Sound mutex s)
    (hrun : exec (Threads.next mutex) s ls = some s') : D.Sound mutex s' :=
  exec_invariant' (fun _ _ _ h hnext => h.step hnext) h hrun

end Discipline

/-! ## Deadlock -/

namespace Threads

variable [DecidableEq M] {mutex : G → M} {s : Threads G E S}

/-- Where the mutexes wanted are ranked above those held, a thread that has not finished means
that one can go on. -/
theorem exists_canStep (hdone : ∀ t ∈ s.threads, t.prog.finished = true → t.held = []) (rank : M → ℕ)
    (hrank : ∀ t ∈ s.threads, ∀ g, t.prog.wanted = some g → ∀ h ∈ t.held, rank (mutex h) < rank (mutex g))
    (hgoing : ∃ t ∈ s.threads, t.prog.finished = false) : ∃ i, s.canStep mutex i = true := by
  by_contra hnone
  have hblocked : ∀ t ∈ s.threads, t.prog.finished = false →
      ∃ g, t.prog.wanted = some g ∧ ∃ u ∈ s.threads, ∃ h ∈ u.held, mutex h = mutex g := by
    intro t ht hgoing
    obtain ⟨i, hi⟩ := List.mem_iff_getElem?.mp ht
    have hnot : ¬s.canStep mutex i = true := fun hcan => hnone ⟨i, hcan⟩
    rw [canStep, hi, Option.any_some, hgoing, Bool.not_false, Bool.true_and, Option.all_eq_true] at hnot
    push Not at hnot
    obtain ⟨g, hwanted, hfree⟩ := hnot
    rw [Ne, free_iff] at hfree
    push Not at hfree
    exact ⟨g, hwanted, hfree⟩
  -- of the threads that have not finished, one that waits for a highest mutex
  let waiting := s.threads.filter fun t => !t.prog.finished
  let height := fun t : Thread G E S => t.prog.wanted.elim 0 fun g => rank (mutex g)
  have hmem : ∀ t, t ∈ waiting ↔ t ∈ s.threads ∧ t.prog.finished = false := fun t => by
    rw [List.mem_filter, Bool.not_eq_true']
  have hsome : waiting.argmax height ≠ none := by
    obtain ⟨u, hu, hgoing⟩ := hgoing
    rw [Ne, List.argmax_eq_none]
    exact List.ne_nil_of_mem ((hmem u).mpr ⟨hu, hgoing⟩)
  obtain ⟨t, ht⟩ := Option.ne_none_iff_exists'.mp hsome
  obtain ⟨htmem, htgoing⟩ := (hmem t).mp (List.argmax_mem ht)
  obtain ⟨g, hwanted, u, hu, h, hh, hmutex⟩ := hblocked t htmem htgoing
  -- it waits for a thread that holds something, and so waits for a higher one
  have hugoing : u.prog.finished = false := by
    by_contra hfinished
    rw [hdone u hu (by simpa using hfinished)] at hh
    cases hh
  obtain ⟨g', hwanted', -⟩ := hblocked u hu hugoing
  have hlt := hrank u hu g' hwanted' h hh
  have hle : height u ≤ height t := List.le_of_mem_argmax ((hmem u).mpr ⟨hu, hugoing⟩) ht
  simp only [height, hwanted, hwanted', Option.elim_some] at hle
  rw [hmutex] at hlt
  exact Nat.not_lt_of_le hle hlt

end Threads

end RedFireForge.Lib
