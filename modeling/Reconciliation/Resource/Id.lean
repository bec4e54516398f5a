import Reconciliation.Json.Printer

/-!
Identities and versions of managed objects.

Identities are ordered by kind, then by namespace with cluster-wide objects first, then by
name.
-/
namespace Reconciliation

/-- `none` as namespace marks an object of the whole cluster. -/
structure ResourceId where
  kind : String
  ns : Option String
  name : String
  deriving DecidableEq, Inhabited

namespace ResourceId

def order : ResourceId → ResourceId → Ordering :=
  compareLex (compareOn kind) (compareLex (compareOn ns) (compareOn name))

instance : Ord ResourceId := ⟨order⟩

instance : Std.TransOrd ResourceId :=
  inferInstanceAs (Std.TransCmp
    (compareLex (compareOn kind) (compareLex (compareOn ns) (compareOn name))))

instance : Std.LawfulEqOrd ResourceId where
  eq_of_compare {a b} h := by
    simp only [compare, order, compareLex_eq_eq, compareOn] at h
    obtain ⟨hk, hs, hn⟩ := h
    have hk : a.kind = b.kind := Std.LawfulEqOrd.eq_of_compare hk
    have hs : a.ns = b.ns := Std.LawfulEqOrd.eq_of_compare hs
    have hn : a.name = b.name := Std.LawfulEqOrd.eq_of_compare hn
    cases a; cases b; simp_all

/-- An object of another kind in the same namespace. -/
def sibling (id : ResourceId) (kind name : String) : ResourceId := ⟨kind, id.ns, name⟩

def text (id : ResourceId) : String :=
  match id.ns with
  | some ns => id.kind ++ "/" ++ ns ++ "/" ++ id.name
  | none => id.kind ++ "/" ++ id.name

instance : ToString ResourceId := ⟨text⟩

def toJson (id : ResourceId) : Json :=
  .object [("kind", .str id.kind), ("namespace", .optional .str id.ns), ("name", .str id.name)]

end ResourceId

/-- The successor of a word, which stays at the greatest word. -/
def saturatingSucc (n : UInt64) : UInt64 := if n = 0xFFFFFFFFFFFFFFFF then n else n + 1

theorem toNat_saturatingSucc (n : UInt64) :
    (saturatingSucc n).toNat = min (n.toNat + 1) 0xFFFFFFFFFFFFFFFF := by
  unfold saturatingSucc
  split
  · rename_i h
    rw [h]
    rfl
  · rename_i h
    have hne : n.toNat ≠ 0xFFFFFFFFFFFFFFFF := fun heq => h (UInt64.toNat_inj.mp heq)
    have hlt := n.toNat_lt
    rw [UInt64.toNat_add, UInt64.toNat_one]
    omega

/-- A token of optimistic concurrency. Every write gives an object a new one. -/
structure Version where
  value : UInt64
  deriving DecidableEq, Inhabited

namespace Version

def next (v : Version) : Version := ⟨saturatingSucc v.value⟩

def text (v : Version) : String := toString v.value.toNat

instance : ToString Version := ⟨text⟩

def toJson (v : Version) : Json := .nat v.value.toNat

end Version
end Reconciliation
