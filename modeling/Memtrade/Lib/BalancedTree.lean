import Memtrade.Lib.BinaryTree
import Mathlib.Data.Int.Order.Basic
import Mathlib.Tactic.Tauto

/-!
# Height balance and its repair

`rebalance` restores the balance of a node whose subtrees are balanced and
whose heights differ by two, by one or two rotations; `climb` applies it at
every node of a context, from a changed subtree up to the root. One lemma
(`climb_balanced`) serves insertions and removals alike: it needs only that the
height at the focus has moved by at most one.
-/

namespace BinaryTree

variable {α : Type}

def Balanced : BinaryTree α → Prop
  | nil => True
  | node _ l r =>
      l.height ≤ r.height + 1 ∧ r.height ≤ l.height + 1 ∧ Balanced l ∧ Balanced r

theorem balanced_fork (d : Side) (x : α) (a b : BinaryTree α) :
    (fork d x a b).Balanced ↔
      a.height ≤ b.height + 1 ∧ b.height ≤ a.height + 1 ∧ a.Balanced ∧ b.Balanced := by
  cases d with
  | left => rfl
  | right =>
      simp only [fork, Balanced]
      tauto

def balanceFactor : BinaryTree α → Int
  | nil => 0
  | node _ l r => (l.height : Int) - r.height

@[simp] theorem balanceFactor_node (x : α) (l r : BinaryTree α) :
    balanceFactor (node x l r) = (l.height : Int) - r.height := rfl

/-- Bring the child on side `d` up. -/
def rotate : Side → BinaryTree α → BinaryTree α
  | .left, node x (node y a b) c => node y a (node x b c)
  | .right, node x a (node y b c) => node y (node x a b) c
  | _, t => t

theorem rotate_fork (d : Side) (x y : α) (a b c : BinaryTree α) :
    rotate d (fork d x (fork d y a b) c) = fork d y a (fork d x b c) := by
  cases d <;> rfl

def rebalance : BinaryTree α → BinaryTree α
  | nil => nil
  | node x l r =>
      if balanceFactor (node x l r) < -1 then
        if balanceFactor r = -1 ∨ balanceFactor r = 0 then
          rotate .right (node x l r)
        else
          rotate .right (node x l (rotate .left r))
      else if balanceFactor (node x l r) > 1 then
        if balanceFactor l = 0 ∨ balanceFactor l = 1 then
          rotate .left (node x l r)
        else
          rotate .left (node x (rotate .right l) r)
      else
        node x l r

/-! ## The three cases of a repair -/

theorem rebalance_of_level (d : Side) (x : α) {a b : BinaryTree α}
    (hab : a.height ≤ b.height + 1) (hba : b.height ≤ a.height + 1) :
    rebalance (fork d x a b) = fork d x a b := by
  have hlevel : ∀ {l r : BinaryTree α}, l.height ≤ r.height + 1 → r.height ≤ l.height + 1 →
      rebalance (node x l r) = node x l r := by
    intro l r hlr hrl
    have hlow : ¬ balanceFactor (node x l r) < -1 := by rw [balanceFactor_node]; omega
    have hhigh : ¬ balanceFactor (node x l r) > 1 := by rw [balanceFactor_node]; omega
    rw [rebalance, if_neg hlow, if_neg hhigh]
  cases d with
  | left => exact hlevel hab hba
  | right => exact hlevel hba hab

/-- The outer grandchild is the taller one, or as tall: one rotation. -/
theorem rebalance_of_outer (d : Side) (x y : α) {a b c : BinaryTree α}
    (htall : (fork d y a b).height = c.height + 2) (hab : a.height ≤ b.height + 1)
    (hba : b.height ≤ a.height) :
    rebalance (fork d x (fork d y a b) c) = fork d y a (fork d x b c) := by
  rw [← rotate_fork]
  rw [height_fork] at htall
  cases d with
  | left =>
      have hlow : ¬ balanceFactor (node x (node y a b) c) < -1 := by
        rw [balanceFactor_node, height]
        omega
      have hhigh : balanceFactor (node x (node y a b) c) > 1 := by
        rw [balanceFactor_node, height]
        omega
      have hchild : balanceFactor (node y a b) = 0 ∨ balanceFactor (node y a b) = 1 := by
        rw [balanceFactor_node]
        omega
      show rebalance (node x (node y a b) c) = rotate .left (node x (node y a b) c)
      rw [rebalance, if_neg hlow, if_pos hhigh, if_pos hchild]
  | right =>
      have hlow : balanceFactor (node x c (node y b a)) < -1 := by
        rw [balanceFactor_node, height]
        omega
      have hchild : balanceFactor (node y b a) = -1 ∨ balanceFactor (node y b a) = 0 := by
        rw [balanceFactor_node]
        omega
      show rebalance (node x c (node y b a)) = rotate .right (node x c (node y b a))
      rw [rebalance, if_pos hlow, if_pos hchild]

theorem rebalance_of_inner (d : Side) (x y z : α) {a b₁ b₂ c : BinaryTree α}
    (htall : (fork d y a (fork d z b₁ b₂)).height = c.height + 2)
    (hinner : a.height < (fork d z b₁ b₂).height) :
    rebalance (fork d x (fork d y a (fork d z b₁ b₂)) c) =
      fork d z (fork d y a b₁) (fork d x b₂ c) := by
  simp only [height_fork] at htall hinner
  cases d with
  | left =>
      have hlow : ¬ balanceFactor (node x (node y a (node z b₁ b₂)) c) < -1 := by
        simp only [balanceFactor_node, height]
        omega
      have hhigh : balanceFactor (node x (node y a (node z b₁ b₂)) c) > 1 := by
        simp only [balanceFactor_node, height]
        omega
      have hchild : ¬ (balanceFactor (node y a (node z b₁ b₂)) = 0 ∨
          balanceFactor (node y a (node z b₁ b₂)) = 1) := by
        simp only [balanceFactor_node, height]
        omega
      show rebalance (node x (node y a (node z b₁ b₂)) c) = _
      rw [rebalance, if_neg hlow, if_pos hhigh, if_neg hchild]
      rfl
  | right =>
      have hlow : balanceFactor (node x c (node y (node z b₂ b₁) a)) < -1 := by
        simp only [balanceFactor_node, height]
        omega
      have hchild : ¬ (balanceFactor (node y (node z b₂ b₁) a) = -1 ∨
          balanceFactor (node y (node z b₂ b₁) a) = 0) := by
        simp only [balanceFactor_node, height]
        omega
      show rebalance (node x c (node y (node z b₂ b₁) a)) = _
      rw [rebalance, if_pos hlow, if_neg hchild]
      rfl

/-- What a repair does to a node whose balanced children differ by at most two. -/
theorem rebalance_cases (d : Side) (x : α) {t u : BinaryTree α} (ht : t.Balanced)
    (htall : t.height = u.height + 2) :
    (∃ y a b, t = fork d y a b ∧ a.height ≤ b.height + 1 ∧ b.height ≤ a.height ∧
      rebalance (fork d x t u) = fork d y a (fork d x b u)) ∨
    (∃ y z a b₁ b₂, t = fork d y a (fork d z b₁ b₂) ∧ a.height < (fork d z b₁ b₂).height ∧
      rebalance (fork d x t u) = fork d z (fork d y a b₁) (fork d x b₂ u)) := by
  have hne : t ≠ nil := by
    rintro rfl
    simp at htall
  obtain ⟨y, a, b, rfl⟩ := exists_fork d hne
  obtain ⟨hab, hba, -, -⟩ := (balanced_fork d y a b).mp ht
  by_cases houter : b.height ≤ a.height
  · exact Or.inl ⟨y, a, b, rfl, hab, houter, rebalance_of_outer d x y htall hab houter⟩
  · have hbne : b ≠ nil := by
      rintro rfl
      simp at houter
    obtain ⟨z, b₁, b₂, rfl⟩ := exists_fork d hbne
    have hinner : a.height < (fork d z b₁ b₂).height := Nat.lt_of_not_le houter
    exact Or.inr ⟨y, z, a, b₁, b₂, rfl, hinner, rebalance_of_inner d x y z htall hinner⟩

/-! ## A repair keeps the order and restores the balance -/

private theorem inorder_rebalance_tall (d : Side) (x : α) {t u : BinaryTree α} (ht : t.Balanced)
    (htall : t.height = u.height + 2) :
    (rebalance (fork d x t u)).inorder = (fork d x t u).inorder := by
  rcases rebalance_cases d x ht htall with
    ⟨y, a, b, rfl, _, _, heq⟩ | ⟨y, z, a, b₁, b₂, rfl, _, heq⟩
  · rw [heq, inorder_rotate]
  · rw [heq]
    cases d <;> simp [fork]

/-- The height after a repair is that of the taller child or one more. -/
private theorem balanced_rebalance_tall (d : Side) (x : α) {t u : BinaryTree α} (ht : t.Balanced)
    (hu : u.Balanced) (htall : t.height = u.height + 2) :
    (rebalance (fork d x t u)).Balanced ∧ t.height ≤ (rebalance (fork d x t u)).height ∧
      (rebalance (fork d x t u)).height ≤ t.height + 1 := by
  rcases rebalance_cases d x ht htall with
    ⟨y, a, b, rfl, hab, hba, heq⟩ | ⟨y, z, a, b₁, b₂, rfl, hinner, heq⟩
  · rw [heq]
    simp only [balanced_fork, height_fork] at ht htall ⊢
    refine ⟨⟨by omega, by omega, ht.2.2.1, by omega, by omega, ht.2.2.2, hu⟩, by omega, by omega⟩
  · rw [heq]
    simp only [balanced_fork, height_fork] at ht htall hinner ⊢
    obtain ⟨_, _, ha, _, _, hb₁, hb₂⟩ := ht
    refine ⟨⟨by omega, by omega, ⟨by omega, by omega, ha, hb₁⟩, by omega, by omega, hb₂, hu⟩,
      by omega, by omega⟩

section Step

variable {f : Frame α} {t : BinaryTree α}

private theorem attach_cases {t u : BinaryTree α} (htu : t.height ≤ u.height + 2)
    (hut : u.height ≤ t.height + 2) :
    (t.height ≤ u.height + 1 ∧ u.height ≤ t.height + 1) ∨ t.height = u.height + 2 ∨
      u.height = t.height + 2 := by
  omega

theorem inorder_rebalance_attach (ht : t.Balanced) (hs : f.sibling.Balanced)
    (hts : t.height ≤ f.sibling.height + 2) (hst : f.sibling.height ≤ t.height + 2) :
    (rebalance (f.attach t)).inorder = (f.attach t).inorder := by
  unfold Frame.attach
  rcases attach_cases hts hst with ⟨h₁, h₂⟩ | htall | htall
  · rw [rebalance_of_level f.side f.value h₁ h₂]
  · exact inorder_rebalance_tall f.side f.value ht htall
  · rw [← fork_other]
    exact inorder_rebalance_tall f.side.other f.value hs htall

/-- If the focus moved by at most one from the height `h` the context was
balanced for, so does the repaired node. -/
theorem balanced_rebalance_attach {h : Nat} (ht : t.Balanced) (hs : f.sibling.Balanced)
    (hhs : h ≤ f.sibling.height + 1) (hsh : f.sibling.height ≤ h + 1)
    (hth : t.height ≤ h + 1) (hht : h ≤ t.height + 1) :
    (rebalance (f.attach t)).Balanced ∧
      (rebalance (f.attach t)).height ≤ max h f.sibling.height + 1 + 1 ∧
      max h f.sibling.height + 1 ≤ (rebalance (f.attach t)).height + 1 := by
  unfold Frame.attach
  rcases attach_cases (t := t) (u := f.sibling) (by omega) (by omega) with
    ⟨h₁, h₂⟩ | htall | htall
  · rw [rebalance_of_level f.side f.value h₁ h₂, balanced_fork, height_fork]
    exact ⟨⟨h₁, h₂, ht, hs⟩, by omega, by omega⟩
  · obtain ⟨hbal, hlo, hhi⟩ := balanced_rebalance_tall f.side f.value ht hs htall
    exact ⟨hbal, by omega, by omega⟩
  · rw [← fork_other]
    obtain ⟨hbal, hlo, hhi⟩ := balanced_rebalance_tall f.side.other f.value hs ht htall
    exact ⟨hbal, by omega, by omega⟩

end Step

/-! ## Contexts -/

/-- The context is balanced around a hole of height `h`. -/
def BalancedAt : Nat → List (Frame α) → Prop
  | _, [] => True
  | h, f :: ctx =>
      f.sibling.Balanced ∧ h ≤ f.sibling.height + 1 ∧ f.sibling.height ≤ h + 1 ∧
        BalancedAt (max h f.sibling.height + 1) ctx

theorem balanced_plug (t : BinaryTree α) (ctx : List (Frame α)) :
    (plug t ctx).Balanced ↔ t.Balanced ∧ BalancedAt t.height ctx := by
  induction ctx generalizing t with
  | nil => simp [plug, BalancedAt]
  | cons f ctx ih =>
      rw [plug, ih, Frame.attach, balanced_fork, height_fork, BalancedAt]
      tauto

theorem height_plug_congr {t u : BinaryTree α} (h : t.height = u.height)
    (ctx : List (Frame α)) : (plug t ctx).height = (plug u ctx).height := by
  induction ctx generalizing t u with
  | nil => exact h
  | cons f ctx ih => exact ih (by simp [Frame.attach, h])

/-- Balance is a matter of heights: a subtree may be exchanged for a balanced
one of the same height. -/
theorem balanced_plug_congr {t u : BinaryTree α} {ctx : List (Frame α)}
    (h : (plug t ctx).Balanced) (hheight : t.height = u.height) (hu : u.Balanced) :
    (plug u ctx).Balanced := by
  rw [balanced_plug] at h ⊢
  exact ⟨hu, hheight ▸ h.2⟩

/-- Repair every node of the context, innermost first. -/
def climb : BinaryTree α → List (Frame α) → BinaryTree α
  | t, [] => t
  | t, f :: ctx => climb (rebalance (f.attach t)) ctx

theorem climb_balanced {t : BinaryTree α} {h : Nat} {ctx : List (Frame α)} (ht : t.Balanced)
    (hctx : BalancedAt h ctx) (hth : t.height ≤ h + 1) (hht : h ≤ t.height + 1) :
    (climb t ctx).Balanced := by
  induction ctx generalizing t h with
  | nil => exact ht
  | cons f ctx ih =>
      obtain ⟨hs, hhs, hsh, hrest⟩ := hctx
      obtain ⟨hbal, hup, hlo⟩ := balanced_rebalance_attach ht hs hhs hsh hth hht
      exact ih hbal hrest hup hlo

theorem inorder_climb {t : BinaryTree α} {h : Nat} {ctx : List (Frame α)} (ht : t.Balanced)
    (hctx : BalancedAt h ctx) (hth : t.height ≤ h + 1) (hht : h ≤ t.height + 1) :
    (climb t ctx).inorder = (plug t ctx).inorder := by
  induction ctx generalizing t h with
  | nil => rfl
  | cons f ctx ih =>
      obtain ⟨hs, hhs, hsh, hrest⟩ := hctx
      obtain ⟨hbal, hup, hlo⟩ := balanced_rebalance_attach ht hs hhs hsh hth hht
      have hstep := inorder_rebalance_attach (f := f) ht hs (by omega) (by omega)
      rw [climb, ih hbal hrest hup hlo, plug, inorder_plug, inorder_plug, hstep]

end BinaryTree
