import TileGrammar.Pattern.Basic

/-!
Orientations of patterns in the horizontal plane. An orientation turns a pattern by quarters and may
mirror it afterwards; a symmetry names the set of orientations in which a rule applies.
-/

namespace TileGrammar

structure Orientation where
  quarters : Fin 4
  isMirrored : Bool
deriving DecidableEq, Repr

namespace Orientation

def all : List Orientation :=
  [0, 1, 2, 3].flatMap fun quarters => [⟨quarters, false⟩, ⟨quarters, true⟩]

def apply (o : Orientation) (p : Pattern) : Pattern :=
  let p := Nat.repeat Pattern.turned o.quarters p
  if o.isMirrored then p.mirrored else p

end Orientation

inductive Symmetry where
  | none
  | reflectX
  | reflectZ
  | reflectXZ
  | rotate
  | all
deriving DecidableEq, Repr, Inhabited

namespace Symmetry

def allows : Symmetry → Orientation → Bool
  | none, o => o = ⟨0, false⟩
  | reflectX, o => o.quarters = 0
  | reflectZ, o => o = ⟨0, false⟩ || o = ⟨2, true⟩
  | reflectXZ, o => o.quarters = 0 || o.quarters = 2
  | rotate, o => !o.isMirrored
  | all, _ => true

def orientations (s : Symmetry) : List Orientation := Orientation.all.filter s.allows

def ofNotation? : String → Option Symmetry
  | "()" => some none
  | "(x)" => some reflectX
  | "(z)" => some reflectZ
  | "(x)(z)" => some reflectXZ
  | "(xz+)" => some rotate
  | "(xz)" => some all
  | _ => Option.none

def name : Symmetry → String
  | none => "none"
  | reflectX => "reflect_x"
  | reflectZ => "reflect_z"
  | reflectXZ => "reflect_x_z"
  | rotate => "rotate"
  | all => "all"

def names : List Symmetry := [none, reflectX, reflectZ, reflectXZ, rotate, all]

def ofName? (s : String) : Option Symmetry := names.find? (·.name = s)

end Symmetry

structure Variant where
  left : Pattern
  right : Pattern
deriving DecidableEq

namespace Variant

def orient (v : Variant) (o : Orientation) : Variant := ⟨o.apply v.left, o.apply v.right⟩

def images (v : Variant) (s : Symmetry) : List Variant :=
  (s.orientations.map v.orient).eraseDups

end Variant

end TileGrammar
