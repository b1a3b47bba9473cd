import Mathlib.Data.List.Basic
import Locus.Fault

set_option autoImplicit false

/- The record kept for one client: database/Position, Watcher and ClientData. -/
namespace Locus

/-- The bit pattern of a `float`. -/
abbrev FloatBits := UInt32

structure Position where
  latitude : FloatBits := 0
  longitude : FloatBits := 0
  time : Int := 0
  deriving DecidableEq, Repr

/-- The news about `id` that its follower has seen: the newest time and the name. -/
structure Watcher where
  id : Int16 := 0
  time : Int := 0
  name : Bytes := []
  deriving DecidableEq, Repr

structure ClientData where
  publicKey : Bytes := []
  name : Bytes := []
  positions : List Position := []
  followers : List Int16 := []
  following : List Watcher := []
  deriving DecidableEq, Repr

namespace ClientData

def setName (name : Bytes) (data : ClientData) : ClientData := { data with name }

def addPosition (latitude longitude : FloatBits) (time : Int) (data : ClientData) : ClientData :=
  { data with positions := data.positions ++ [{ latitude, longitude, time }] }

def addFollower (id : Int16) (data : ClientData) : ClientData :=
  { data with followers := data.followers ++ [id] }

/-- `std::list::remove` drops every occurrence. -/
def removeFollower (id : Int16) (data : ClientData) : ClientData :=
  { data with followers := data.followers.filter (· ≠ id) }

def startFollowing (id : Int16) (data : ClientData) : ClientData :=
  { data with following := data.following ++ [{ id }] }

def stopFollowing (id : Int16) (data : ClientData) : ClientData :=
  { data with following := data.following.filter (·.id ≠ id) }

/-- Replace the watchers after a query has moved their marks. -/
def setFollowing (following : List Watcher) (data : ClientData) : ClientData :=
  { data with following }

end ClientData

end Locus
