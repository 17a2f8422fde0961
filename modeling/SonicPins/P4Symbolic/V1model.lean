import SonicPins.P4Symbolic.ControlMeaning
import SonicPins.Pdpi.References

/-! The v1model architecture on parsed headers: the ingress controls, a replica of a packet for a multicast group, and the egress
controls for a packet that is not dropped. -/
namespace SonicPins.P4Symbolic.Evaluation
open Lib Pdpi Operators SymbolicPerPacketState

section Replication

/-- The port of a replica, a string of a message and hence UTF-8. -/
def replicaPort (replica : IrReplica) : String := (ofUtf8? replica.port).getD ""

variable (widths : MulticastWidths)

end Replication

section Switch

structure SymbolicContext where
  state : EvaluationState
  egressHeaders : SymbolicPerPacketState
  matchedEntries : SymbolicTableMatches
  dropped : Term
  gotCloned : Term
  egressPort : Term

variable [InetText] (simplify : Term → Term) (program : Ir.Program) (entries : Ir.TableEntries)

end Switch

section Packets
variable (T : P4RuntimeTranslator)

variable [InetText] (program : Ir.Program) (entries : Ir.TableEntries) (σ : Assignment)

end Packets

section Groups
variable {widths : MulticastWidths} {guard mcastGrp t : Term} {work work' : Work}

end Groups

section Prediction
variable [InetText] {simplify : Term → Term} {program : Ir.Program} {entries : Ir.TableEntries}

end Prediction

/-- A group with two replicas beside the entry that clones. -/
def switchEntries : Ir.TableEntries :=
  (References.getMulticastGroupTableName,[.concreteEntry (.packetReplicationEngineEntry (.multicastGroupEntry
    { multicastGroupId := 7,replicas := [⟨[49],1,[]⟩,⟨[50],2,[]⟩] })) 0]) :: cloneEntries

end SonicPins.P4Symbolic.Evaluation
