import RoutineChain.Proof.Authorization
import RoutineChain.Proof.Backing
import RoutineChain.Proof.Consistency
import RoutineChain.Proof.Deactivation
import RoutineChain.Proof.Docket
import RoutineChain.Proof.Domains
import RoutineChain.Proof.EventLog
import RoutineChain.Proof.Failover
import RoutineChain.Proof.Genesis
import RoutineChain.Proof.Hosts
import RoutineChain.Proof.Independence
import RoutineChain.Proof.Ledger
import RoutineChain.Proof.Links
import RoutineChain.Proof.Longevity
import RoutineChain.Proof.Nonces
import RoutineChain.Proof.Once
import RoutineChain.Proof.Overflow
import RoutineChain.Proof.Pool
import RoutineChain.Proof.Reads
import RoutineChain.Proof.Replication
import RoutineChain.Proof.Reset
import RoutineChain.Proof.Restart
import RoutineChain.Proof.ScoreOrder
import RoutineChain.Proof.Settleable
import RoutineChain.Proof.Settlements
import RoutineChain.Proof.StateRoot
import RoutineChain.Proof.VoteOrder
import RoutineChain.Proof.Wire
