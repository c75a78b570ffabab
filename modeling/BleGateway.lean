import BleGateway.Lib.Mealy
import BleGateway.Lib.Buffer
import BleGateway.Lib.Sessions
import BleGateway.Lib.History
import BleGateway.Lib.Framing
import BleGateway.Lib.Words
import BleGateway.Lib.Primality
import BleGateway.Lib.CoZ
import BleGateway.Lib.CoZLadder
import BleGateway.Lib.PointCount
import BleGateway.Lib.BigEndian
import BleGateway.Lib.Retry
import BleGateway.SplitInvariance
import BleGateway.RoundTrip
import BleGateway.ReceiveLoop
import BleGateway.Program
import BleGateway.SessionOrder
import BleGateway.SessionProgress
import BleGateway.SessionConsistency
import BleGateway.Addresses
import BleGateway.ElementRanges
import BleGateway.ProvisionPeer
import BleGateway.HandlePeer
import BleGateway.StaleBytes
import BleGateway.KeyConfinement
import BleGateway.ScanStart
import BleGateway.SecretGuard
import BleGateway.FailedStatus
import BleGateway.RefusedProvision
import BleGateway.ElementAddress
import BleGateway.Responses
import BleGateway.OnOffKeys
import BleGateway.PacketMemory
import BleGateway.PromptDelivery
import BleGateway.ParserBounds
import BleGateway.ReceiveWork
import BleGateway.Ecc.Vli
import BleGateway.Lib.Columns
import BleGateway.Ecc.VliMult
import BleGateway.Ecc.VliMod
import BleGateway.Ecc.VliModInv
import BleGateway.Ecc.Secp256r1
import BleGateway.Ecc.Field
import BleGateway.Ecc.Points
import BleGateway.Ecc.EccPointMult
import BleGateway.Ecc.CurveOrder
import BleGateway.Ecc.GroupLaw
import BleGateway.Ecc.ScalarMult
import BleGateway.Ecc.Bytes
import BleGateway.Ecc.Keys
import BleGateway.Ecc.RandomKeys
import BleGateway.Ecc.SharedSecret
import BleGateway.ReadsComplete
import BleGateway.OwnExchange
import BleGateway.EcdhAgreement
