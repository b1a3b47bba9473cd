import Mathlib.Data.Set.Insert
import Locus.Assignment

set_option autoImplicit false

/- What the service is for, without its records: people who are known by a key, choose a name,
say who may follow them, and are seen by those people only. -/
namespace Locus

/-- People `ι` with keys `κ`, names `ν` and places `π`. Who is mentioned has a key. -/
structure Sharing (ι κ ν π : Type) where
  keys : κ ≃. ι := ⊥
  names : ν ≃. ι := ⊥
  /-- The follower comes first. -/
  follows : Set (ι × ι) := ∅
  place : ι → Option π := fun _ => none
  named_known : ∀ name person, names name = some person → (keys.symm person).isSome := by simp
  follows_known : ∀ link ∈ follows, (keys.symm link.1).isSome ∧ (keys.symm link.2).isSome := by
    simp
  place_known : ∀ person, (place person).isSome → (keys.symm person).isSome := by simp

namespace Sharing

variable {ι κ ν π : Type} [DecidableEq ι] [DecidableEq κ] [DecidableEq ν]

def Known (s : Sharing ι κ ν π) (person : ι) : Prop := (s.keys.symm person).isSome

section Operations

variable (s : Sharing ι κ ν π)

def join (key : κ) (person : ι) (fresh : s.keys key = none) : Sharing ι κ ν π :=
  have kept : ∀ other, (s.keys.symm other).isSome →
      ((s.keys.assign key person).symm other).isSome := by
    intro other known
    rw [PEquiv.assign_symm_of_free _ fresh]
    split
    · rfl
    · exact known
  { s with
    keys := s.keys.assign key person
    named_known := fun name other held => kept other (s.named_known name other held)
    follows_known := fun link member =>
      ⟨kept link.1 (s.follows_known link member).1, kept link.2 (s.follows_known link member).2⟩
    place_known := fun other seen => kept other (s.place_known other seen) }

def allow (owner follower : ι) (here : s.Known owner) (there : s.Known follower) :
    Sharing ι κ ν π :=
  { s with
    follows := insert (follower, owner) s.follows
    follows_known := by
      rintro link (rfl | member)
      · exact ⟨there, here⟩
      · exact s.follows_known link member }

def forbid (owner follower : ι) : Sharing ι κ ν π :=
  { s with
    follows := s.follows \ {(follower, owner)}
    follows_known := fun link member => s.follows_known link member.1 }

def visit (person : ι) (place : π) (here : s.Known person) : Sharing ι κ ν π :=
  { s with
    place := fun other => if other = person then some place else s.place other
    place_known := by
      intro other seen
      split at seen
      · rename_i same
        rw [same]
        exact here
      · exact s.place_known other seen }

/-- The old name is free from then on. -/
def rename (person : ι) (name : ν) (here : s.Known person) : Sharing ι κ ν π :=
  { s with
    names := s.names.assign name person
    named_known := by
      intro other holder held
      rw [PEquiv.assign_apply] at held
      split at held
      · cases held
        exact here
      · split at held
        · cases held
        · exact s.named_known other holder held }

end Operations

/-- What people do, with the answers that they get. -/
inductive Action (ι κ ν π : Type) where
  | join (key : κ) (person : ι)
  | allow (owner follower : ι)
  | forbid (owner follower : ι)
  | visit (person : ι) (place : π)
  | rename (person : ι) (name : ν)
  | refuse (person : ι) (name : ν)
  | find (name : ν) (found : Option ι)
  | look (person : ι) (places : List (ι × π))
  | meet (person : ι) (names : List (ι × ν))

/-- A key belongs to one person for good, a name to one person at a time, and what somebody is
told is true and is about the people whom they may follow. -/
inductive Step (s : Sharing ι κ ν π) : Action ι κ ν π → Sharing ι κ ν π → Prop
  | join {key : κ} {person : ι} (fresh : s.keys key = none) (unused : s.keys.symm person = none) :
      Step s (.join key person) (s.join key person fresh)
  | rejoin {key : κ} {person : ι} (known : s.keys key = some person) :
      Step s (.join key person) s
  | allow {owner follower : ι} (here : s.Known owner) (there : s.Known follower) :
      Step s (.allow owner follower) (s.allow owner follower here there)
  | forbid {owner follower : ι} : Step s (.forbid owner follower) (s.forbid owner follower)
  | visit {person : ι} {place : π} (here : s.Known person) :
      Step s (.visit person place) (s.visit person place here)
  | rename {person : ι} {name : ν} (here : s.Known person)
      (free : ∀ holder, s.names name = some holder → holder = person) :
      Step s (.rename person name) (s.rename person name here)
  | refuse {person holder : ι} {name : ν} (taken : s.names name = some holder)
      (other : holder ≠ person) : Step s (.refuse person name) s
  | find {name : ν} : Step s (.find name (s.names name)) s
  | look {person : ι} {places : List (ι × π)} (here : s.Known person)
      (seen : ∀ news ∈ places, (person, news.1) ∈ s.follows ∧
        (s.names.symm news.1).isSome ∧ s.place news.1 = some news.2) :
      Step s (.look person places) s
  | meet {person : ι} {names : List (ι × ν)} (here : s.Known person)
      (called : ∀ news ∈ names, (person, news.1) ∈ s.follows ∧
        s.names.symm news.1 = some news.2) :
      Step s (.meet person names) s

end Sharing

end Locus
