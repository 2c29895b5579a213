import WordMachine.CommandLine.Folder

/-!
# Saved files

A content that is saved is put at the place that its path leads to, and nowhere else. What stands
there is no directory, so the path leads to the same place afterwards. A save that the place refuses
has no effect.
-/

namespace WordMachine.CommandLine.Folder

variable {f g : Folder} {p q place : Place} {n : Node} {path : Path} {content : Octets}
  {names : List Octets} {node : Option Node}

theorem lookup_filter_ne {nodes : List (Place × Node)} (hq : q ≠ p) :
    (nodes.filter (·.1 ≠ p)).lookup q = nodes.lookup q := by
  induction nodes with
  | nil => rfl
  | cons entry nodes ih =>
    obtain ⟨r, n⟩ := entry
    by_cases hr : r = p
    · subst hr
      have hqr : (q == r) = false := beq_eq_false_iff_ne.mpr hq
      simp only [List.filter_cons, ne_eq, not_true_eq_false, decide_false, Bool.false_eq_true,
        if_false, List.lookup_cons, hqr, ih]
    · simp only [List.filter_cons, ne_eq, hr, not_false_eq_true, decide_true, if_true,
        List.lookup_cons, ih]

theorem node?_put_self (f : Folder) (n : Node) (hp : p.names ≠ []) :
    (f.put p n).node? p = some n := by
  simp [node?, put, hp]

theorem node?_put_of_ne (f : Folder) (n : Node) (hq : q ≠ p) : (f.put p n).node? q = f.node? q := by
  have hother : (q == p) = false := beq_eq_false_iff_ne.mpr hq
  simp only [node?, put, List.lookup_cons, hother, lookup_filter_ne hq]

theorem node?_of_look (h : f.look p = .ok node) : f.node? p = node := by
  unfold look at h
  split at h
  · contradiction
  · exact Except.ok.inj h

theorem look_of_look (h : f.look p = .ok node) (g : Folder) : g.look p = .ok (g.node? p) := by
  unfold look at h ⊢
  split at h
  · contradiction
  · rename_i hname
    rw [if_neg hname]

@[simp] theorem refusal?_put (f : Folder) (p : Place) (n : Node) (q : Place) (a : Access) :
    (f.put p n).refusal? q a = f.refusal? q a := rfl

theorem walk_mono (hfg : ∀ q, f.node? q = some .directory → g.node? q = some .directory)
    (hsearch : ∀ q, g.refusal? q .search = f.refusal? q .search)
    (h : f.walk p names = .ok place) : g.walk p names = .ok place := by
  induction names generalizing p with
  | nil => exact h
  | cons name names ih =>
    rw [walk] at h ⊢
    split at h
    · contradiction
    · contradiction
    · rename_i hlook
      have hg : g.look p = .ok (some .directory) := by
        rw [look_of_look hlook g, hfg p (node?_of_look hlook)]
      simp only [hg, hsearch]
      split at h
      · contradiction
      · split at h
        · rename_i hname
          rw [if_pos hname]
          exact ih h
        · rename_i hname
          rw [if_neg hname]
          split at h
          · rename_i hup
            rw [if_pos hup]
            exact ih h
          · rename_i hup
            rw [if_neg hup]
            exact ih h
    · contradiction

theorem find_mono (hfg : ∀ q, f.node? q = some .directory → g.node? q = some .directory)
    (hsearch : ∀ q, g.refusal? q .search = f.refusal? q .search)
    (h : f.find path = .ok place) : g.find path = .ok place := by
  unfold find at h ⊢
  split at h
  · contradiction
  · rename_i hempty
    split at h
    · contradiction
    · rename_i hlong
      rw [if_neg hempty, if_neg hlong]
      exact walk_mono hfg hsearch h

theorem refusalToSave?_eq_none (h : f.refusalToSave? p content = none) :
    f.refusal? p .create = none ∧ (f.refusal? p .write = none ∨ content = []) := by
  unfold refusalToSave? at h
  split at h
  · contradiction
  · rename_i hcreate
    refine ⟨hcreate, ?_⟩
    split at h
    · rename_i hempty
      exact .inr (List.isEmpty_iff.mp hempty)
    · exact .inl (Option.map_eq_none_iff.mp h)

/-- The content was put at the place, or a device that stands there has taken it. -/
inductive Saved (f : Folder) (place : Place) (content : Octets) : Folder → Prop
  | file (hplace : place.names ≠ []) (hnode : f.node? place ≠ some .directory) :
      f.Saved place content (f.put place (.file content))
  | device (hnode : f.node? place = some .device) (hcreate : f.refusal? place .create = none)
      (hwrite : f.refusal? place .write = none ∨ content = []) : f.Saved place content f

theorem saved_of_save (h : f.save path content = .ok g) : ∃ place,
    f.find path = .ok place ∧ f.look place = .ok (f.node? place) ∧
      f.Saved place content g := by
  unfold save at h
  split at h
  · contradiction
  · rename_i place hfind
    split at h
    · contradiction
    · split at h
      · contradiction
      · contradiction
      · rename_i node hdirectory hlook
        split at h
        · contradiction
        · rename_i hrefusal
          obtain ⟨hcreate, hwrite⟩ := refusalToSave?_eq_none hrefusal
          obtain rfl := Except.ok.inj h
          have hnode := node?_of_look hlook
          refine ⟨place, hfind, look_of_look hlook f, ?_⟩
          by_cases hdevice : node = some .device
          · rw [if_pos hdevice]
            exact .device (hnode.trans hdevice) hcreate hwrite
          · rw [if_neg hdevice]
            have hne : f.node? place ≠ some .directory := by
              intro hd
              exact hdirectory (hnode.symm.trans hd)
            have hplace : place.names ≠ [] := by
              intro hnil
              exact hne (by simp [node?, hnil])
            exact .file hplace hne

namespace Saved

theorem node?_of_ne (h : f.Saved place content g) (hq : q ≠ place) : g.node? q = f.node? q := by
  cases h with
  | file => exact node?_put_of_ne f _ hq
  | device => rfl

theorem directory (h : f.Saved place content g) (hq : f.node? q = some .directory) :
    g.node? q = some .directory := by
  cases h with
  | file _ hnode =>
    have hne : q ≠ place := by
      rintro rfl
      exact hnode hq
    rw [node?_put_of_ne f _ hne, hq]
  | device => exact hq

theorem refusal?_eq (h : f.Saved place content g) (q : Place) (a : Access) :
    g.refusal? q a = f.refusal? q a := by
  cases h with
  | file => exact refusal?_put f _ _ q a
  | device => rfl

end Saved

/-- The path leads to a file that holds the content, or to a device that has taken it: only a device
that refuses none of it may be left with nothing. -/
def Keeps (before : Folder) (path : Path) (content : Octets) (after : Folder) : Prop :=
  ∃ place, before.find path = .ok place ∧ after.find path = .ok place ∧
    (after.look place = .ok (some (.file content)) ∨
      before.node? place = some .device ∧ before.refusal? place .create = none ∧
        (before.refusal? place .write = none ∨ content = []) ∧ after = before)

theorem keeps_of_save (h : f.save path content = .ok g) : f.Keeps path content g := by
  obtain ⟨place, hfind, hlook, hsaved⟩ := saved_of_save h
  have hagain : g.find path = .ok place :=
    find_mono (fun q => hsaved.directory) (fun q => hsaved.refusal?_eq q .search) hfind
  refine ⟨place, hfind, hagain, ?_⟩
  cases hsaved with
  | file hplace =>
    left
    rw [look_of_look hlook, node?_put_self f _ hplace]
  | device hnode hcreate hwrite => exact .inr ⟨hnode, hcreate, hwrite, rfl⟩

end WordMachine.CommandLine.Folder
