import Mathlib.Algebra.Group.Int.Defs
import Mathlib.Data.Int.Basic
import Mathlib.Data.List.Basic

/-!
# Scaling down a failing ReplicaSet

`scaleDownFailingReplicaSet` of the operator's lifecycle: it pauses the Deployment, goes once over the ReplicaSets with the
Deployment's labels, keeps the newest of those that the Deployment owns, and scales that one down unless it alone serves traffic.
-/

namespace LlamaAgents

/-- A ReplicaSet: its name, the UIDs of its owners, its annotation with the revision, when it was created, the replicas that it is to
have, and those that are available. -/
structure ReplicaSet where
  name : String
  ownerReferences : List String
  revision : Option String := none
  creationTimestamp : Int
  replicas : Option Int := none
  availableReplicas : Int := 0
deriving DecidableEq, Repr

/-- The number that some decimal digits give; there is none without a digit. -/
def digitsValue : List Char → Option Nat
  | [] => none
  | cs => if cs.all Char.isDigit then some (cs.foldl (fun n c => 10 * n + (c.toNat - '0'.toNat)) 0) else none

/-- `strconv.ParseInt(s, 10, 64)`. -/
def parseInt64 (s : String) : Option Int :=
  let signed : Option Int := match s.toList with
    | '-' :: cs => (digitsValue cs).map fun n => -(n : Int)
    | '+' :: cs => (digitsValue cs).map fun n => (n : Int)
    | cs => (digitsValue cs).map fun n => (n : Int)
  signed.filter fun n => -2 ^ 63 ≤ n && n < 2 ^ 63

namespace ReplicaSet

/-- The revision that the annotation gives; a missing one is read as the empty text. -/
def revisionNumber (rs : ReplicaSet) : Option Int := parseInt64 (rs.revision.getD "")

/-- Whether a Deployment is among the owners. -/
def isOwnedBy (rs : ReplicaSet) (uid : String) : Bool := rs.ownerReferences.any fun owner => owner = uid

/-- Whether some replica is available. -/
def isHealthy (rs : ReplicaSet) : Bool := 0 < rs.availableReplicas

end ReplicaSet

/-- A listing of ReplicaSets, in any order; names are not given twice. -/
structure ReplicaSetList where
  items : List ReplicaSet
  distinct : (items.map ReplicaSet.name).Nodup

/-- What the loop keeps: the newest ReplicaSet so far, the highest revision, and whether another one is healthy. -/
structure ReplicaSetScan where
  newestRS : Option ReplicaSet := none
  maxRevision : Int := -1
  hasOtherHealthyRS : Bool := false

namespace ReplicaSetScan

/-- A ReplicaSet becomes the newest. -/
def supersede (s : ReplicaSetScan) (rs : ReplicaSet) : ReplicaSetScan :=
  { s with newestRS := some rs, hasOtherHealthyRS := s.hasOtherHealthyRS || s.newestRS.any ReplicaSet.isHealthy }

/-- A ReplicaSet does not. -/
def pass (s : ReplicaSetScan) (rs : ReplicaSet) : ReplicaSetScan := { s with hasOtherHealthyRS := s.hasOtherHealthyRS || rs.isHealthy }

/-- One round of the loop. Without a revision, the later of two ReplicaSets is newer. -/
def round (uid : String) (s : ReplicaSetScan) (rs : ReplicaSet) : ReplicaSetScan :=
  if !rs.isOwnedBy uid then s
  else match rs.revisionNumber with
    | none => if s.newestRS.all fun newest => newest.creationTimestamp < rs.creationTimestamp then s.supersede rs else s.pass rs
    | some rev => if s.maxRevision < rev then { s.supersede rs with maxRevision := rev } else s.pass rs

end ReplicaSetScan

/-- The loop over the ReplicaSets. -/
def scanReplicaSets (uid : String) (items : List ReplicaSet) : ReplicaSetScan := items.foldl (ReplicaSetScan.round uid) {}

/-- A call that changes something: the Deployment is paused, or a ReplicaSet gets no replicas. -/
inductive RemediationCall where
  | pause
  | scaleDown (rs : ReplicaSet)
deriving DecidableEq, Repr

/-- The Deployment that a remediation finds. -/
structure PausableDeployment where
  uid : String
  paused : Bool

/-- The ReplicaSet that is scaled down, if one is. -/
def scaledDown? (uid : String) (listed : ReplicaSetList) : Option ReplicaSet :=
  let s := scanReplicaSets uid listed.items
  s.newestRS.filter fun newest => !(newest.isHealthy && !s.hasOtherHealthyRS) && newest.replicas.getD 1 ≠ 0

/-- `scaleDownFailingReplicaSet`: its calls, each of which may fail and be the last. The Deployment may not be found, and the
listing may fail. -/
def scaleDownFailingReplicaSet (deployment : Option PausableDeployment) (listed : Option ReplicaSetList) : List RemediationCall :=
  match deployment with
  | none => []
  | some d => (if d.paused then [] else [.pause]) ++ (listed.bind (scaledDown? d.uid)).toList.map .scaleDown

end LlamaAgents
