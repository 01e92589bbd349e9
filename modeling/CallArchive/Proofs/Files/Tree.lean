import CallArchive.Files.Tree
import Mathlib.Data.List.Basic

/-!
# Files put into trees and taken away

A file that is put into a directory leaves all other nodes as they are, and so does one that is taken
away. So directories stay directories, and texts stay unless a file takes their place
(`FileTree.HasRoom.keeps`) or they are what is taken away (`FileTree.keeps_erase`).
-/

namespace CallArchive.Files

namespace FileTree

variable {t t' : FileTree} {names q : List String}

def IsDirectory (t : FileTree) (names : List String) : Prop :=
  ∃ es, t.node? names = some (.directory es)

theorem checkDirectory_ok_iff : t.checkDirectory names = .ok () ↔ t.IsDirectory names := by
  unfold checkDirectory IsDirectory
  split
  · next es h => simp [h]
  · next c h => simp [h]
  · next h => simp [h]
  · next h => simp [h]

theorem node?_append (names more : List String) (t : FileTree) :
    t.node? (names ++ more) = (t.node? names).bind (node? more) := by
  induction names generalizing t with
  | nil => rfl
  | cons name names ih =>
    rw [List.cons_append, node?, node?, Option.bind_assoc]
    exact Option.bind_congr fun child _ => ih child

/-- All that is passed through on the way to a node is a directory. -/
theorem isDirectory_above {node : FileTree} (h : t.node? names = some node) (hq : q <+: names)
    (hne : q ≠ names) : t.IsDirectory q := by
  obtain ⟨rest, rfl⟩ := hq
  rw [node?_append] at h
  obtain ⟨x, hx, hrest⟩ := Option.bind_eq_some_iff.mp h
  cases rest with
  | nil => exact absurd (List.append_nil q).symm hne
  | cons name rest =>
    cases x with
    | directory es => exact ⟨es, hx⟩
    | file c => cases hrest
    | void => cases hrest

theorem node?_put_of_apart {node : FileTree} (hbelow : ¬ names <+: q) (habove : ¬ q <+: names) :
    (t.put names node).node? q = t.node? q := by
  induction names generalizing t q with
  | nil => exact absurd (List.nil_prefix) hbelow
  | cons name names ih =>
    cases q with
    | nil => exact absurd (List.nil_prefix) habove
    | cons name' q =>
      have hput : ((put t (name :: names) node).entries : Assoc String FileTree)
          = Assoc.put name (put ((Assoc.get? name t.entries).getD empty) names node) t.entries := rfl
      rw [node?, node?, hput, Assoc.get?_put]
      split
      · next heq =>
        subst heq
        have hbelow : ¬ names <+: q := fun h => hbelow (List.cons_prefix_cons.mpr ⟨rfl, h⟩)
        have habove : ¬ q <+: names := fun h => habove (List.cons_prefix_cons.mpr ⟨rfl, h⟩)
        rw [Option.bind_some, ih hbelow habove]
        cases Assoc.get? name t.entries with
        | some child => rfl
        | none =>
          cases q with
          | nil => exact absurd List.nil_prefix habove
          | cons _ _ => rfl
      · rfl

/-- Where a file can be put: in a directory, and not in the place of one. -/
structure HasRoom (t : FileTree) (names : List String) : Prop where
  above : ∀ q, q <+: names → q ≠ names → t.IsDirectory q
  notDirectory : ¬ t.IsDirectory names

theorem hasRoom_of_node? {node : FileTree} (h : t.node? names = some node)
    (hnode : ∀ es, node ≠ .directory es) : t.HasRoom names where
  above := fun q hq hne => isDirectory_above h hq hne
  notDirectory := by
    rintro ⟨es, hes⟩
    exact hnode es (Option.some.inj (h.symm.trans hes))

theorem hasRoom_of_parent {name : String} (hparent : t.IsDirectory names)
    (h : ¬ t.IsDirectory (names ++ [name])) : t.HasRoom (names ++ [name]) where
  above := by
    intro q hq hne
    obtain ⟨es, hes⟩ := hparent
    by_cases heq : q = names
    · exact ⟨es, heq ▸ hes⟩
    · rcases List.prefix_concat_iff.mp hq with h | h
      · exact absurd h hne
      · exact isDirectory_above hes h heq
  notDirectory := h

theorem HasRoom.isDirectory_put {node : FileTree} (h : t.HasRoom names) (hq : t.IsDirectory q) :
    (t.put names node).IsDirectory q := by
  by_cases hbelow : names <+: q
  · obtain ⟨es, hes⟩ := hq
    by_cases heq : names = q
    · exact absurd ⟨es, heq ▸ hes⟩ h.notDirectory
    · exact absurd (isDirectory_above hes hbelow heq) h.notDirectory
  · by_cases habove : q <+: names
    · exact isDirectory_above (node?_put t names node) habove
        fun heq => hbelow (heq ▸ List.prefix_refl q)
    · unfold IsDirectory
      rw [node?_put_of_apart hbelow habove]
      exact hq

/-- A node that is not taken away stays what it is; directories on the way to what is taken away have
other entries then. -/
theorem node?_erase {node : FileTree} (h : ¬ names <+: q) (hq : t.node? q = some node) :
    ∃ node', (t.erase names).node? q = some node' ∧ node'.kind = node.kind ∧
      (node.kind ≠ .directory → node' = node) := by
  induction names generalizing t q with
  | nil => exact absurd List.nil_prefix h
  | cons name rest ih =>
    rw [erase]
    cases hchild : Assoc.get? name t.entries with
    | none => exact ⟨node, hq, rfl, fun _ => rfl⟩
    | some child =>
      cases q with
      | nil =>
        obtain rfl := Option.some.inj hq
        cases t with
        | directory es => exact ⟨_, rfl, rfl, fun hkind => absurd rfl hkind⟩
        | file content => cases hchild
        | void => cases hchild
      | cons name' q =>
        rw [node?] at hq
        simp only [node?, entries]
        by_cases hname : name = name'
        · subst hname
          have hrest : ¬ rest <+: q := fun hp => h (List.cons_prefix_cons.mpr ⟨rfl, hp⟩)
          have hne : rest ≠ [] := by
            rintro rfl
            exact hrest List.nil_prefix
          rw [if_neg hne, Assoc.get?_put, if_pos rfl, Option.bind_some]
          rw [hchild, Option.bind_some] at hq
          exact ih hrest hq
        · have hsame : Assoc.get? name' (if rest = [] then Assoc.erase name t.entries
              else Assoc.put name (erase child rest) t.entries) = Assoc.get? name' t.entries := by
            split
            · rw [Assoc.get?_erase, if_neg hname]
            · rw [Assoc.get?_put, if_neg hname]
          exact ⟨node, hsame ▸ hq, rfl, fun _ => rfl⟩

/-- Nothing comes to a place where nothing was. -/
theorem node?_erase_none (names : List String) (hq : t.node? q = none) :
    (t.erase names).node? q = none := by
  induction names generalizing t q with
  | nil => exact hq
  | cons name rest ih =>
    rw [erase]
    cases hchild : Assoc.get? name t.entries with
    | none => exact hq
    | some child =>
      cases q with
      | nil => cases hq
      | cons name' q =>
        rw [node?] at hq
        simp only [node?, entries]
        by_cases hname : name = name'
        · subst hname
          split
          · rw [Assoc.get?_erase, if_pos rfl, Option.bind_none]
          · rw [hchild, Option.bind_some] at hq
            rw [Assoc.get?_put, if_pos rfl, Option.bind_some]
            exact ih hq
        · split
          · rwa [Assoc.get?_erase, if_neg hname]
          · rwa [Assoc.get?_put, if_neg hname]

theorem node?_erase_self (hne : names ≠ []) : (t.erase names).node? names = none := by
  induction names generalizing t with
  | nil => exact absurd rfl hne
  | cons name rest ih =>
    rw [erase]
    cases hchild : Assoc.get? name t.entries with
    | none =>
      rw [node?, hchild]
      rfl
    | some child =>
      simp only [node?, entries]
      split
      · rw [Assoc.get?_erase, if_pos rfl, Option.bind_none]
      · next hrest =>
        rw [Assoc.get?_put, if_pos rfl, Option.bind_some]
        exact ih hrest

/-- Directories stay where they are, and so do texts that are not under lost names. A text of at most
one byte counts as an empty database, so it may change. -/
structure Keeps (lost : List String → Prop) (t t' : FileTree) : Prop where
  directory : ∀ names, t.IsDirectory names → t'.IsDirectory names
  text : ∀ names (s : String), ¬ lost names → 1 < s.utf8ByteSize →
    t.node? names = some (.file (.text s)) → t'.node? names = some (.file (.text s))

section

variable {lost : List String → Prop}

theorem Keeps.refl (t : FileTree) : t.Keeps lost t := ⟨fun _ h => h, fun _ _ _ _ h => h⟩

theorem Keeps.trans {t'' : FileTree} (h : t.Keeps lost t') (h' : t'.Keeps lost t'') :
    t.Keeps lost t'' :=
  ⟨fun names hd => h'.directory names (h.directory names hd),
    fun names s hl hs ht => h'.text names s hl hs (h.text names s hl hs ht)⟩

theorem HasRoom.keeps {node : FileTree} (h : t.HasRoom names)
    (htext : ∀ s : String, 1 < s.utf8ByteSize → t.node? names ≠ some (.file (.text s))) :
    t.Keeps lost (t.put names node) where
  directory := fun _ hq => h.isDirectory_put hq
  text := by
    intro q s _ hs hq
    by_cases hbelow : names <+: q
    · by_cases heq : names = q
      · exact absurd (heq ▸ hq) (htext s hs)
      · exact absurd (isDirectory_above hq hbelow heq) h.notDirectory
    · by_cases habove : q <+: names
      · obtain ⟨es, hes⟩ := h.above q habove fun heq => hbelow (heq ▸ List.prefix_refl q)
        cases hq.symm.trans hes
      · rw [node?_put_of_apart hbelow habove]
        exact hq

theorem keeps_put_new {node : FileTree} (habove : ∀ q, q <+: names → q ≠ names → t.IsDirectory q)
    (hnone : t.node? names = none) : t.Keeps lost (t.put names node) := by
  refine HasRoom.keeps ⟨habove, ?_⟩ ?_
  · rintro ⟨es, hes⟩
    cases hnone.symm.trans hes
  · intro s _ htext
    cases hnone.symm.trans htext

theorem keeps_erase {content : Content} (hfile : t.node? names = some (.file content))
    (hlost : lost names) : t.Keeps lost (t.erase names) := by
  -- Nothing is below a file, so nothing else is taken away with it.
  have hbelow : ∀ {q node}, t.node? q = some node → q ≠ names → ¬ names <+: q := fun hq hne hp => by
    obtain ⟨es, hes⟩ := isDirectory_above hq hp hne.symm
    cases hfile.symm.trans hes
  refine ⟨fun q hq => ?_, fun q s hkept _ hq => ?_⟩
  · obtain ⟨es, hes⟩ := hq
    have hne : q ≠ names := by
      rintro rfl
      cases hfile.symm.trans hes
    obtain ⟨node, hnode, hkind, -⟩ := node?_erase (hbelow hes hne) hes
    cases node with
    | directory es' => exact ⟨es', hnode⟩
    | file c => cases hkind
    | void => cases hkind
  · have hne : q ≠ names := by
      rintro rfl
      exact hkept hlost
    obtain ⟨node, hnode, -, hsame⟩ := node?_erase (hbelow hq hne) hq
    rw [hnode, hsame (by nofun)]

end

end FileTree

end CallArchive.Files
