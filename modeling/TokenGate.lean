import TokenGate.Coap
import TokenGate.Config
import TokenGate.Hints
import TokenGate.Profile.GroupJoin
import TokenGate.Profile.Oscore
import TokenGate.Proofs.Access.Endurance
import TokenGate.Proofs.Access.Grounds
import TokenGate.Proofs.Access.Monotonicity
import TokenGate.Proofs.Admission.Channels
import TokenGate.Proofs.Admission.Replies
import TokenGate.Proofs.Admission.Retransmission
import TokenGate.Proofs.Protection
import TokenGate.Proofs.Claims.RoundTrip
import TokenGate.Proofs.Repository.Reopening
import TokenGate.Proofs.Repository.Coexistence
import TokenGate.Proofs.Repository.Interchange
import TokenGate.Proofs.Admission.Presentation
import TokenGate.Proofs.Admission.Survival
import TokenGate.Proofs.Oscore.Succession
import TokenGate.Proofs.Admission.Exchanges
import TokenGate.Proofs.Repository.Recognition
import TokenGate.Proofs.Repository.Loading
import TokenGate.Proofs.Oscore.Readings
import TokenGate.Proofs.KeyDigests
import TokenGate.Proofs.Claims.Typing
import TokenGate.Proofs.GroupScopes
import TokenGate.Proofs.Access.Meaning
import TokenGate.Proofs.Claims.Overlay
import TokenGate.Proofs.Hints
import TokenGate.Proofs.Coap
