import Mathlib

/-! A stream of kernels that a device runs in the order of their launch while the
host goes on. How far the device gets before each operation of the host is open;
the host learns of completions only by waiting for an event, which stands after
the kernels launched before it was recorded. A fact that some kernels establish
holds from their event on when later kernels keep it. -/

namespace StreamInfer.General

/-- The device completes `pace i` kernels before operation `i` of the host. The host
writes its own staging memory, which kernels read. -/
structure Stream (K H M : Type) where
  pace : ℕ → ℕ
  clock : ℕ
  launched : List K
  completed : ℕ
  known : ℕ
  host : H
  memory : M
  completed_le : completed ≤ launched.length

namespace Stream

variable {K H M : Type} (run : K → H → M → M)

def start (pace : ℕ → ℕ) (host : H) (memory : M) : Stream K H M :=
  ⟨pace, 0, [], 0, 0, host, memory, le_rfl⟩

/-- The kernels before an event that are not complete. -/
def pending (e : ℕ) (s : Stream K H M) : List K := (s.launched.take e).drop s.completed

/-- The kernels that the host does not know to be complete. -/
def unknown (s : Stream K H M) : List K := s.launched.drop s.known

def runUntil (e : ℕ) (s : Stream K H M) : Stream K H M where
  __ := s
  memory := (s.pending e).foldl (fun m k => run k s.host m) s.memory
  completed := max s.completed (min e s.launched.length)
  completed_le := max_le s.completed_le (min_le_right e s.launched.length)

def tick (s : Stream K H M) : Stream K H M where
  __ := s.runUntil run (s.completed + s.pace s.clock)
  clock := s.clock + 1

def launch (k : K) (s : Stream K H M) : Stream K H M where
  __ := s.tick run
  launched := s.launched ++ [k]
  completed_le := by
    rw [List.length_append]
    exact Nat.le_add_right_of_le (s.tick run).completed_le

def write (g : H → H) (s : Stream K H M) : Stream K H M where
  __ := s.tick run
  host := g s.host

/-- An event is the number of kernels before it. -/
def record (s : Stream K H M) : ℕ := s.launched.length

def wait (e : ℕ) (s : Stream K H M) : Stream K H M where
  __ := (s.tick run).runUntil run e
  known := max s.known e

section Fields

variable (s : Stream K H M) (e : ℕ) (k : K) (g : H → H)

@[simp] theorem tick_launched : (s.tick run).launched = s.launched := rfl
@[simp] theorem tick_known : (s.tick run).known = s.known := rfl
@[simp] theorem tick_host : (s.tick run).host = s.host := rfl
@[simp] theorem launch_launched : (s.launch run k).launched = s.launched ++ [k] := rfl
@[simp] theorem launch_known : (s.launch run k).known = s.known := rfl
@[simp] theorem launch_host : (s.launch run k).host = s.host := rfl
@[simp] theorem write_launched : (s.write run g).launched = s.launched := rfl
@[simp] theorem write_known : (s.write run g).known = s.known := rfl
@[simp] theorem write_host : (s.write run g).host = g s.host := rfl
@[simp] theorem wait_launched : (s.wait run e).launched = s.launched := rfl
@[simp] theorem wait_known : (s.wait run e).known = max s.known e := rfl
@[simp] theorem wait_host : (s.wait run e).host = s.host := rfl

end Fields

theorem completed_le_tick (s : Stream K H M) : s.completed ≤ (s.tick run).completed := le_max_left _ _

/-- Waiting for an event completes the kernels before it. -/
theorem le_completed_wait {s : Stream K H M} {e : ℕ} (h : e ≤ s.launched.length) :
    e ≤ (s.wait run e).completed := by
  change e ≤ max (s.tick run).completed (min e s.launched.length)
  omega

/-! ### Facts that hold from an event on -/

variable {run} {I : H → Prop} {P Q : M → Prop} {s : Stream K H M} {e n : ℕ} {k : K}

variable (run) in
/-- Running these kernels leaves `P`, whatever the host writes meanwhile within `I`. -/
def Settles (I : H → Prop) (P : M → Prop) : List K → M → Prop
  | [], m => P m
  | k :: ks, m => ∀ h, I h → Settles I P ks (run k h m)

variable (run) in
def Keeps (I : H → Prop) (k : K) (P : M → Prop) : Prop :=
  ∀ h, I h → ∀ m, P m → P (run k h m)

variable (run) in
/-- `P` holds once the kernels before the event are complete. -/
structure From (I : H → Prop) (e : ℕ) (P : M → Prop) (s : Stream K H M) : Prop where
  le : e ≤ s.launched.length
  host : I s.host
  settles : Settles run I P (s.pending e) s.memory
  keeps : ∀ k ∈ s.launched.drop e, Keeps run I k P

theorem settles_mono {ks : List K} {m : M} (h : Settles run I P ks m) (hpq : ∀ m, P m → Q m) :
    Settles run I Q ks m := by
  induction ks generalizing m with
  | nil => exact hpq m h
  | cons k ks ih => exact fun x hx => ih (h x hx)

theorem settles_append {ks ks' : List K} {m : M} :
    Settles run I P (ks ++ ks') m ↔ Settles run I (Settles run I P ks') ks m := by
  induction ks generalizing m with
  | nil => rfl
  | cons k ks ih => exact forall₂_congr fun x _ => ih

theorem settles_true (ks : List K) (m : M) : Settles run I (fun _ => True) ks m := by
  induction ks generalizing m with
  | nil => trivial
  | cons k ks ih => exact fun x _ => ih (run k x m)

/-- With the host's memory as it is, the kernels do leave `P`. -/
theorem Settles.foldl {ks : List K} {m : M} (h : Settles run I P ks m) {x : H} (hx : I x) :
    P (ks.foldl (fun m k => run k x m) m) := by
  induction ks generalizing m with
  | nil => exact h
  | cons k ks ih => exact ih (h x hx)

theorem foldl_keeps {ks : List K} {m : M} {x : H} (h : ∀ k ∈ ks, Keeps run I k P) (hx : I x)
    (hm : P m) : P (ks.foldl (fun m k => run k x m) m) := by
  induction ks generalizing m with
  | nil => exact hm
  | cons k ks ih =>
    exact ih (fun k' hk' => h k' (List.mem_cons_of_mem k hk')) (h k List.mem_cons_self x hx m hm)

theorem drop_take_split (l : List K) {c n e : ℕ} (hc : c ≤ n) (hn : n ≤ e) :
    (l.take e).drop c = (l.take n).drop c ++ (l.take e).drop n := by
  have htake : (l.take n).drop c = ((l.take e).drop c).take (n - c) := by
    rw [List.drop_take, List.drop_take, List.take_take]
    congr 1
    omega
  have hdrop : (l.take e).drop n = ((l.take e).drop c).drop (n - c) := by
    rw [List.drop_drop]
    congr 1
    omega
  rw [htake, hdrop, List.take_append_drop]

namespace From

theorem runUntil (h : From run I e P s) (n : ℕ) : From run I e P (s.runUntil run n) := by
  have hle := h.le
  refine ⟨hle, h.host, ?_, h.keeps⟩
  change Settles run I P ((s.launched.take e).drop (max s.completed (min n s.launched.length)))
    ((s.pending n).foldl (fun m k => run k s.host m) s.memory)
  have hsettles : Settles run I P ((s.launched.take e).drop s.completed) s.memory := h.settles
  unfold pending
  by_cases hn : n ≤ s.completed
  · have hnil : (s.launched.take n).drop s.completed = [] := by
      apply List.drop_eq_nil_of_le
      rw [List.length_take]
      omega
    rw [hnil, max_eq_left (by omega)]
    exact hsettles
  · by_cases he : n ≤ e
    · rw [min_eq_left (by omega), max_eq_right (by omega)]
      rw [drop_take_split s.launched (by omega) he, settles_append] at hsettles
      exact hsettles.foldl h.host
    · have hnil : (s.launched.take e).drop (max s.completed (min n s.launched.length)) = [] := by
        apply List.drop_eq_nil_of_le
        rw [List.length_take]
        omega
      rw [hnil]
      by_cases hc : s.completed ≤ e
      · rw [drop_take_split s.launched hc (by omega : e ≤ n), List.foldl_append]
        have hP := hsettles.foldl h.host
        apply foldl_keeps (I := I) _ h.host hP
        intro k hk
        rw [List.drop_take] at hk
        exact h.keeps k (List.mem_of_mem_take hk)
      · have hdone : (s.launched.take e).drop s.completed = [] := by
          apply List.drop_eq_nil_of_le
          rw [List.length_take]
          omega
        rw [hdone] at hsettles
        apply foldl_keeps (I := I) _ h.host hsettles
        intro k hk
        rw [List.drop_take, show s.completed = e + (s.completed - e) by omega, ← List.drop_drop] at hk
        exact h.keeps k (List.mem_of_mem_drop (List.mem_of_mem_take hk))

theorem tick (h : From run I e P s) : From run I e P (s.tick run) :=
  have hrun := h.runUntil (s.completed + s.pace s.clock)
  ⟨hrun.le, hrun.host, hrun.settles, hrun.keeps⟩

/-- Nothing is claimed of the kernels launched so far. -/
theorem trivial (hI : I s.host) : From run I s.record (fun _ => True) s :=
  ⟨le_rfl, hI, settles_true _ _, fun _ _ _ _ _ _ => True.intro⟩

/-- The next kernel takes `P` to `Q`. -/
theorem next (h : From run I s.record P s) (hk : ∀ x, I x → ∀ m, P m → Q (run k x m)) :
    From run I (s.launch run k).record Q (s.launch run k) := by
  have hsettles : Settles run I P ((s.launched.take s.launched.length).drop
      (s.tick run).completed) (s.tick run).memory := h.tick.settles
  refine ⟨le_rfl, h.host, ?_, ?_⟩
  · change Settles run I Q (((s.launched ++ [k]).take (s.launched ++ [k]).length).drop
      (s.tick run).completed) (s.tick run).memory
    have hle : (s.tick run).completed ≤ s.launched.length := (s.tick run).completed_le
    rw [List.take_length] at hsettles ⊢
    rw [List.drop_append_of_le_length hle, settles_append]
    exact settles_mono hsettles fun m hm x hx => hk x hx m hm
  · intro k' hk'
    simp [record] at hk'

/-- A later kernel that keeps `P`. -/
theorem launch (h : From run I e P s) (hk : Keeps run I k P) : From run I e P (s.launch run k) := by
  have ht := h.tick
  refine ⟨?_, h.host, ?_, ?_⟩
  · rw [launch_launched, List.length_append]
    exact Nat.le_add_right_of_le h.le
  · have hp := ht.settles
    unfold pending at hp ⊢
    rw [launch_launched, List.take_append_of_le_length h.le]
    exact hp
  · intro k' hk'
    rw [launch_launched, List.drop_append_of_le_length h.le, List.mem_append, List.mem_singleton] at hk'
    rcases hk' with hk' | rfl
    · exact h.keeps k' hk'
    · exact hk

theorem write (h : From run I e P s) {g : H → H} (hg : I (g s.host)) :
    From run I e P (s.write run g) :=
  ⟨h.le, hg, h.tick.settles, h.keeps⟩

theorem wait (h : From run I e P s) (n : ℕ) : From run I e P (s.wait run n) :=
  have hrun := h.tick.runUntil n
  ⟨hrun.le, hrun.host, hrun.settles, hrun.keeps⟩

theorem now (h : From run I e P s) (hc : e ≤ s.completed) : P s.memory := by
  have hsettles := h.settles
  have hnil : s.pending e = [] := by
    apply List.drop_eq_nil_of_le
    rw [List.length_take]
    omega
  rwa [hnil] at hsettles

/-- The kernels launched since keep `P`, so it also holds from now on. -/
theorem later (h : From run I e P s) : From run I s.record P s := by
  refine ⟨le_rfl, h.host, ?_, ?_⟩
  · have hsettles : Settles run I P ((s.launched.take e).drop s.completed) s.memory := h.settles
    have hkeeps : ∀ {ks : List K}, (∀ k ∈ ks, k ∈ s.launched.drop e) → ∀ m, P m →
        Settles run I P ks m := by
      intro ks hks
      induction ks with
      | nil => exact fun m hm => hm
      | cons k ks ih =>
        exact fun m hm x hx => ih (fun k' hk' => hks k' (List.mem_cons_of_mem k hk')) _
          (h.keeps k (hks k List.mem_cons_self) x hx m hm)
    unfold pending record
    rw [List.take_length]
    by_cases hc : s.completed ≤ e
    · have hsplit := drop_take_split s.launched hc h.le
      rw [List.take_length] at hsplit
      rw [hsplit, settles_append]
      exact settles_mono hsettles (hkeeps fun k hk => hk)
    · apply hkeeps
      · intro k hk
        rw [show s.completed = e + (s.completed - e) by omega, ← List.drop_drop] at hk
        exact List.mem_of_mem_drop hk
      · exact h.now (Nat.le_of_not_le hc)
  · intro k hk
    simp [record] at hk

theorem mono (h : From run I e P s) {J : H → Prop} (hJ : ∀ x, J x → I x) (hs : J s.host) :
    From run J e P s := by
  refine ⟨h.le, hs, ?_, fun k hk x hx => h.keeps k hk x (hJ x hx)⟩
  have hsettles := h.settles
  generalize s.pending e = ks at hsettles ⊢
  generalize s.memory = m at hsettles ⊢
  induction ks generalizing m with
  | nil => exact hsettles
  | cons k ks ih => exact fun x hx => ih _ (hsettles x (hJ x hx))

end From

end Stream

end StreamInfer.General
