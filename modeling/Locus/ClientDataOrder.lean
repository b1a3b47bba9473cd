import Mathlib.Algebra.Order.Ring.Nat
import Locus.ClientDataManager
import Locus.Comparison

set_option autoImplicit false

/- The operators `==` and `<` of database/Position, Watcher and ClientData, and `==` of
database/ClientDataManager, against the fields that are saved. -/
namespace Locus

open Comparison

namespace FloatBits

/-- Not a number: all bits of the exponent are set, and some of the fraction. -/
def isNaN (a : FloatBits) : Bool := a.toNat % 2 ^ 31 > 0x7f800000

/-- The place of a float among all of them, from the sign and the magnitude. Both zeros are
at 0. -/
def rank (a : FloatBits) : Int :=
  if a.toNat < 2 ^ 31 then a.toNat else -(a.toNat - 2 ^ 31 : Nat)

/-- `<` of two floats. -/
def less (a b : FloatBits) : Bool := !isNaN a && !isNaN b && rank a < rank b

/-- `==` of two floats. -/
def equal (a b : FloatBits) : Bool := !isNaN a && !isNaN b && rank a == rank b

end FloatBits

/-- `<` of two strings, or of two vectors of `unsigned char`. -/
def Bytes.less : Bytes → Bytes → Bool := lexicographicalCompare fun a b => a < b

namespace Position

/-- `Position::operator==`. -/
def equal (a b : Position) : Bool :=
  FloatBits.equal a.latitude b.latitude && FloatBits.equal a.longitude b.longitude &&
    a.time == b.time

/-- `Position::operator<`. -/
def less (a b : Position) : Bool :=
  if FloatBits.less a.latitude b.latitude then true
  else if FloatBits.less b.latitude a.latitude then false
  else if FloatBits.less a.longitude b.longitude then true
  else if FloatBits.less b.longitude a.longitude then false
  else a.time < b.time

/-- Both coordinates are numbers. -/
def Ordered (a : Position) : Prop :=
  FloatBits.isNaN a.latitude = false ∧ FloatBits.isNaN a.longitude = false

/-- The numbers of a position, in the order of its fields. -/
def numbers (a : Position) : Int ×ₗ Int ×ₗ Int :=
  toLex (FloatBits.rank a.latitude, toLex (FloatBits.rank a.longitude, a.time))

end Position

namespace Watcher

/-- `Watcher::operator==`. -/
def equal (a b : Watcher) : Bool := a.id == b.id && a.time == b.time && a.name == b.name

/-- `Watcher::operator<`. -/
def less (a b : Watcher) : Bool :=
  if a.id < b.id then true
  else if b.id < a.id then false
  else if a.time < b.time then true
  else if b.time < a.time then false
  else Bytes.less a.name b.name

end Watcher

namespace ClientData

/-- `ClientData::operator==`. -/
def equal (a b : ClientData) : Bool :=
  a.publicKey == b.publicKey &&
    a.positions.isEqv b.positions Position.equal &&
    a.followers == b.followers &&
    a.following.isEqv b.following Watcher.equal

/-- `ClientData::operator<`. -/
def less (a b : ClientData) : Bool :=
  if Bytes.less a.publicKey b.publicKey then true
  else if Bytes.less b.publicKey a.publicKey then false
  else if Bytes.less a.name b.name then true
  else if Bytes.less b.name a.name then false
  else if lexicographicalCompare Position.less a.positions b.positions then true
  else if lexicographicalCompare Position.less b.positions a.positions then false
  else if lexicographicalCompare (fun x y => x < y) a.followers b.followers then true
  else if lexicographicalCompare (fun x y => x < y) b.followers a.followers then false
  else lexicographicalCompare Watcher.less a.following b.following

/-- No coordinate is NaN. -/
def Ordered (a : ClientData) : Prop := ∀ position ∈ a.positions, position.Ordered

/-- All that is saved of two clients is equal, but for their names. -/
structure SameButName (a b : ClientData) : Prop where
  publicKey : a.publicKey = b.publicKey
  positions : a.positions.map Position.numbers = b.positions.map Position.numbers
  followers : a.followers = b.followers
  following : a.following = b.following

/-- All that is saved of two clients is equal. Coordinates are equal as numbers. -/
structure SameFields (a b : ClientData) : Prop extends SameButName a b where
  name : a.name = b.name

/-- The order of two clients is total, and `==` goes by all that is saved. -/
structure Lawful (a b : ClientData) : Prop where
  one_of_three : [a.less b, a.equal b, b.less a].count true = 1
  detects : a.equal b = true ↔ SameFields a b

end ClientData

namespace ClientDataManager

/-- `ClientDataManager::operator==`. Maps are equal if they have the same keys, and equal values
under them. -/
def Equal (m m' : ClientDataManager) : Prop :=
  m.nextId = m'.nextId ∧ m.clientsId = m'.clientsId ∧
    ∀ id, Option.Rel (fun a b => a.equal b = true) (m.clientsData id) (m'.clientsData id)

def Ordered (m : ClientDataManager) : Prop :=
  ∀ id data, m.clientsData id = some data → data.Ordered

/-- All that is saved of two managers is equal. -/
structure SameMembers (m m' : ClientDataManager) : Prop where
  nextId : m.nextId = m'.nextId
  clientsId : m.clientsId = m'.clientsId
  clientsName : m.clientsName = m'.clientsName
  clientsData : ∀ id, Option.Rel ClientData.SameFields (m.clientsData id) (m'.clientsData id)

/-- All that is saved of two managers is equal, but for the names of their clients. -/
structure SameButNames (m m' : ClientDataManager) : Prop where
  nextId : m.nextId = m'.nextId
  clientsId : m.clientsId = m'.clientsId
  clientsData : ∀ id, Option.Rel ClientData.SameButName (m.clientsData id) (m'.clientsData id)

/-- The names of two managers are equal. -/
structure SameNames (m m' : ClientDataManager) : Prop where
  clientsName : m.clientsName = m'.clientsName
  names : ∀ id, (m.clientsData id).map ClientData.name = (m'.clientsData id).map ClientData.name

end ClientDataManager

theorem FloatBits.less_iff {a b : FloatBits} (left : isNaN a = false) (right : isNaN b = false) :
    less a b = true ↔ rank a < rank b := by
  rw [less, left, right]
  simp

theorem FloatBits.equal_iff {a b : FloatBits} (left : isNaN a = false) (right : isNaN b = false) :
    equal a b = true ↔ rank a = rank b := by
  rw [equal, left, right]
  simp

/-- Strings are ordered by their bytes as numbers. -/
theorem Bytes.less_iff (a b : Bytes) :
    Bytes.less a b = true ↔ a.map UInt8.toNat < b.map UInt8.toNat := by
  have bytes : LessBy (fun _ => True) UInt8.toNat fun a b => a < b := by
    intro a b _ _
    rw [decide_eq_true_eq, UInt8.lt_iff_toNat_lt]
  exact bytes.sequences a b (fun _ _ => trivial) (fun _ _ => trivial)

theorem Position.lessBy : LessBy Ordered numbers less := by
  intro a b left right
  apply first_iff (FloatBits.less_iff left.1 right.1) (FloatBits.less_iff right.1 left.1)
  apply first_iff (FloatBits.less_iff left.2 right.2) (FloatBits.less_iff right.2 left.2)
  exact decide_eq_true_iff

theorem Position.equalBy : EqualBy Ordered numbers equal := by
  intro a b left right
  rw [equal, Bool.and_eq_true, Bool.and_eq_true, FloatBits.equal_iff left.1 right.1,
    FloatBits.equal_iff left.2 right.2, beq_iff_eq, numbers, numbers]
  simp [and_assoc]

/-- The fields of a watcher, as numbers. -/
def Watcher.fields (a : Watcher) : Int ×ₗ Int ×ₗ List Nat :=
  toLex (a.id.toInt, toLex (a.time, a.name.map UInt8.toNat))

theorem Watcher.lessBy : LessBy (fun _ => True) fields less := by
  intro a b _ _
  apply first_iff
  · exact Int16.lt_iff_toInt_lt
  · exact Int16.lt_iff_toInt_lt
  · apply first_iff Iff.rfl Iff.rfl
    exact Bytes.less_iff a.name b.name

theorem Watcher.equal_iff {a b : Watcher} : a.equal b = true ↔ a = b := by
  rw [equal, Bool.and_eq_true, Bool.and_eq_true, beq_iff_eq, beq_iff_eq, beq_iff_eq]
  cases a
  cases b
  simp [and_assoc]

theorem toNat_injective : Function.Injective UInt8.toNat := fun _ _ => UInt8.toNat_inj.mp

theorem Watcher.fields_injective : Function.Injective fields := by
  intro a b same
  obtain ⟨id, rest⟩ := Prod.mk.inj (toLex_inj.mp same)
  obtain ⟨time, name⟩ := Prod.mk.inj (toLex_inj.mp rest)
  cases a
  cases b
  cases Int16.toInt_inj.mp id
  cases (show (_ : Int) = _ from time)
  cases toNat_injective.list_map name
  rfl

namespace ClientData

/-- The fields of a client, as numbers. -/
def fields (a : ClientData) : List Nat ×ₗ List Nat ×ₗ List (Int ×ₗ Int ×ₗ Int) ×ₗ List Int ×ₗ
    List (Int ×ₗ Int ×ₗ List Nat) :=
  toLex (a.publicKey.map UInt8.toNat, toLex (a.name.map UInt8.toNat,
    toLex (a.positions.map Position.numbers, toLex (a.followers.map Int16.toInt,
      a.following.map Watcher.fields))))

theorem fields_eq_iff {a b : ClientData} : a.fields = b.fields ↔ SameFields a b := by
  constructor
  · intro same
    obtain ⟨publicKey, rest⟩ := Prod.mk.inj (toLex_inj.mp same)
    obtain ⟨name, rest⟩ := Prod.mk.inj (toLex_inj.mp rest)
    obtain ⟨positions, rest⟩ := Prod.mk.inj (toLex_inj.mp rest)
    obtain ⟨followers, following⟩ := Prod.mk.inj (toLex_inj.mp rest)
    exact ⟨⟨toNat_injective.list_map publicKey, positions,
      (show Function.Injective Int16.toInt from fun _ _ => Int16.toInt_inj.mp).list_map followers,
      Watcher.fields_injective.list_map following⟩, toNat_injective.list_map name⟩
  · intro same
    rw [fields, fields, same.publicKey, same.name, same.positions, same.followers, same.following]

theorem lessBy : LessBy Ordered fields less := by
  intro a b left right
  have shorts : LessBy (fun _ => True) Int16.toInt fun x y => x < y := by
    intro x y _ _
    rw [decide_eq_true_eq, Int16.lt_iff_toInt_lt]
  have followers (a b : ClientData) := shorts.sequences a.followers b.followers
    (fun _ _ => trivial) (fun _ _ => trivial)
  have following := Watcher.lessBy.sequences a.following b.following
    (fun _ _ => trivial) (fun _ _ => trivial)
  apply first_iff (Bytes.less_iff _ _) (Bytes.less_iff _ _)
  apply first_iff (Bytes.less_iff _ _) (Bytes.less_iff _ _)
  apply first_iff (Position.lessBy.sequences _ _ left right)
    (Position.lessBy.sequences _ _ right left)
  exact first_iff (followers a b) (followers b a) following

/-- `==` goes by all that is saved but the name. -/
theorem equal_iff {a b : ClientData} (left : a.Ordered) (right : b.Ordered) :
    a.equal b = true ↔ SameButName a b := by
  have watchers : EqualBy (fun _ => True) id Watcher.equal := fun _ _ _ _ => Watcher.equal_iff
  have positions : a.positions.isEqv b.positions Position.equal = true ↔
      a.positions.map Position.numbers = b.positions.map Position.numbers :=
    Position.equalBy.sequences _ _ left right
  have following : a.following.isEqv b.following Watcher.equal = true ↔
      a.following.map id = b.following.map id :=
    watchers.sequences _ _ (fun _ _ => trivial) (fun _ _ => trivial)
  rw [List.map_id, List.map_id] at following
  rw [equal, Bool.and_eq_true, Bool.and_eq_true, Bool.and_eq_true, beq_iff_eq, beq_iff_eq,
    positions, following]
  constructor
  · rintro ⟨⟨⟨publicKey, positions⟩, followers⟩, following⟩
    exact ⟨publicKey, positions, followers, following⟩
  · intro same
    exact ⟨⟨⟨same.publicKey, same.positions⟩, same.followers⟩, same.following⟩

/-- Two clients are told apart exactly if they differ in more than their names. -/
theorem lawful_iff {a b : ClientData} (left : a.Ordered) (right : b.Ordered) :
    Lawful a b ↔ (SameButName a b → a.name = b.name) := by
  constructor
  · intro lawful same
    exact (lawful.detects.mp ((equal_iff left right).mpr same)).name
  · intro named
    have detects : a.equal b = true ↔ SameFields a b := by
      rw [equal_iff left right]
      exact ⟨fun same => ⟨same, named same⟩, SameFields.toSameButName⟩
    exact ⟨lessBy.one_of_three left right (detects.trans fields_eq_iff.symm), detects⟩

end ClientData

namespace ClientDataManager

variable {m m' : ClientDataManager}

/-- `==` goes by all that is saved but the names. -/
theorem equal_iff (left : m.Ordered) (right : m'.Ordered) : m.Equal m' ↔ SameButNames m m' := by
  have records (id : Int16) :
      Option.Rel (fun a b => a.equal b = true) (m.clientsData id) (m'.clientsData id) ↔
        Option.Rel ClientData.SameButName (m.clientsData id) (m'.clientsData id) := by
    cases here : m.clientsData id with
    | none =>
        cases m'.clientsData id with
        | none => exact iff_of_true .none .none
        | some b => exact iff_of_false (fun other => nomatch other) fun other => nomatch other
    | some a =>
        cases there : m'.clientsData id with
        | none => exact iff_of_false (fun other => nomatch other) fun other => nomatch other
        | some b =>
            rw [Option.rel_some_some, Option.rel_some_some]
            exact ClientData.equal_iff (left id a here) (right id b there)
  constructor
  · rintro ⟨nextId, clientsId, clientsData⟩
    exact ⟨nextId, clientsId, fun id => (records id).mp (clientsData id)⟩
  · intro same
    exact ⟨same.nextId, same.clientsId, fun id => (records id).mpr (same.clientsData id)⟩

/-- Two records are equal if they are but for the name, and have one name. -/
theorem sameFields_rel_iff (x y : Option ClientData) :
    Option.Rel ClientData.SameFields x y ↔
      Option.Rel ClientData.SameButName x y ∧ x.map ClientData.name = y.map ClientData.name := by
  constructor
  · intro same
    cases same with
    | none => exact ⟨.none, rfl⟩
    | some fields => exact ⟨.some fields.toSameButName, congrArg some fields.name⟩
  · rintro ⟨same, name⟩
    cases same with
    | none => exact .none
    | some others => exact .some ⟨others, Option.some.inj name⟩

theorem sameMembers_iff : SameMembers m m' ↔ SameButNames m m' ∧ SameNames m m' := by
  constructor
  · intro same
    have records (id : Int16) := (sameFields_rel_iff _ _).mp (same.clientsData id)
    exact ⟨⟨same.nextId, same.clientsId, fun id => (records id).1⟩,
      ⟨same.clientsName, fun id => (records id).2⟩⟩
  · rintro ⟨same, named⟩
    exact ⟨same.nextId, same.clientsId, named.clientsName, fun id =>
      (sameFields_rel_iff _ _).mpr ⟨same.clientsData id, named.names id⟩⟩

end ClientDataManager

/-- `<` is transitive. And `==` is true to `<` and to what is saved exactly where two clients, or
two managers, that differ in their names differ in something else as well. -/
theorem comparisons_lawful {a b c : ClientData} (first : a.Ordered) (second : b.Ordered)
    (third : c.Ordered) {m m' : ClientDataManager} (left : m.Ordered) (right : m'.Ordered) :
    (a.less b = true → b.less c = true → a.less c = true) ∧
      (ClientData.Lawful a b ↔ (ClientData.SameButName a b → a.name = b.name)) ∧
      ((m.Equal m' ↔ ClientDataManager.SameMembers m m') ↔
        (ClientDataManager.SameButNames m m' → ClientDataManager.SameNames m m')) := by
  refine ⟨ClientData.lessBy.trans first second third, ClientData.lawful_iff first second, ?_⟩
  rw [ClientDataManager.equal_iff left right, ClientDataManager.sameMembers_iff, iff_self_and]

/-- Two clients that have said where they are. -/
theorem comparisons_lawful_placed :
    ClientData.less { positions := [{ latitude := 0xbf800000 }] }
        { positions := [{ latitude := 0x3f800000 }] } = true ∧
      ClientData.Lawful { positions := [{ latitude := 0xbf800000 }] }
        { positions := [{ latitude := 0x80000000 }] } ∧
      (ClientDataManager.Equal {} {} ↔ ClientDataManager.SameMembers {} {}) := by
  have ordered (latitude : FloatBits) (number : FloatBits.isNaN latitude = false) :
      ClientData.Ordered { positions := [{ latitude }] } := by
    intro position member
    rw [List.mem_singleton.mp member]
    exact ⟨number, rfl⟩
  have empty : ClientDataManager.Ordered {} := by
    intro id data impossible
    cases impossible
  obtain ⟨follows, apart, saved⟩ := comparisons_lawful (ordered 0xbf800000 rfl)
    (ordered 0x80000000 rfl) (ordered 0x3f800000 rfl) empty empty
  exact ⟨follows (by decide) (by decide), apart.mpr fun _ => rfl,
    saved.mpr fun _ => ⟨rfl, fun _ => rfl⟩⟩

namespace ClientDataManager

/-- The manager after a client has registered, and after it has taken a name. -/
def unnamed : ClientDataManager := (Program.finalState (registerClient [1] 0 {})).manager

def named : ClientDataManager :=
  (Program.finalState ((do
    let id ← registerClient [1] 0
    setName id [65]) {})).manager

/-- A name that is lost is not missed. -/
theorem lost_name_equal :
    (¬ ∀ a b : ClientData, a.Ordered → b.Ordered → ClientData.Lawful a b) ∧
      ¬ ∀ m m' : ClientDataManager, m.Ordered → m'.Ordered →
        (m.Equal m' ↔ SameMembers m m') := by
  constructor
  · intro lawful
    have one := (lawful { name := [65] } {} (fun _ none => nomatch none)
      (fun _ none => nomatch none)).one_of_three
    revert one
    decide
  · intro saved
    have before : unnamed.clientsData = KeyMap.empty.insert 1 { publicKey := [1] } := rfl
    have after : named.clientsData =
      (KeyMap.empty.insert 1 { publicKey := [1] }).modify 1 (ClientData.setName [65]) := rfl
    have equal : unnamed.Equal named := by
      refine ⟨rfl, rfl, fun id => ?_⟩
      rw [before, after]
      by_cases own : id = 1
      · subst own
        exact .some (by decide)
      · rw [KeyMap.modify_of_ne _ _ own, KeyMap.insert_of_ne _ _ own]
        exact .none
    have start : unnamed.Ordered := by
      intro id data found position member
      rw [before] at found
      rcases KeyMap.insert_eq_some rfl found with ⟨-, rfl⟩ | ⟨-, none_there⟩
      · cases member
      · cases none_there
    have finish : named.Ordered := by
      intro id data found position member
      rw [after] at found
      by_cases own : id = 1
      · subst own
        cases found
        cases member
      · rw [KeyMap.modify_of_ne _ _ own, KeyMap.insert_of_ne _ _ own] at found
        cases found
    have same := ((saved _ _ start finish).mp equal).clientsName
    have entry : unnamed.clientsName [65] = named.clientsName [65] := by rw [same]
    revert entry
    decide

end ClientDataManager

end Locus
