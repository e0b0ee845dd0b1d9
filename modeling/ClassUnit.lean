import ClassUnit.Main
import ClassUnit.Proxy.Shown
import ClassUnit.Signature.Listener
import ClassUnit.Proofs.Json.ReadBack
import ClassUnit.Proofs.Signature.Spelling
import ClassUnit.Proofs.Signature.WellFormed
import ClassUnit.Proofs.Signature.Reading
import ClassUnit.Proofs.Signature.Building
import ClassUnit.Proofs.Signature.Recognition
import ClassUnit.Proofs.Signature.RoundTrip
import ClassUnit.Proofs.Signature.Driving
import ClassUnit.Proofs.Signature.Truncation
import ClassUnit.Proofs.Signature.Bag
import ClassUnit.Proofs.Signature.Conservation
import ClassUnit.Proofs.Signature.Inference
import ClassUnit.Proofs.Signature.Decoding
import ClassUnit.Proofs.Signature.Steps
import ClassUnit.Proofs.Signature.Nesting
import ClassUnit.Proofs.Signature.Concatenation
import ClassUnit.Proofs.Signature.Scanner
import ClassUnit.Proofs.Signature.Offsets
import ClassUnit.Proofs.Signature.Scanning
import ClassUnit.Proofs.TypePath
import ClassUnit.Proofs.Field.Session
import ClassUnit.Proofs.Field.Chain
import ClassUnit.Proofs.Field.Order
import ClassUnit.Proofs.Field.Protection
import ClassUnit.Proofs.Field.Isolation
import ClassUnit.Proofs.Field.Nesting
import ClassUnit.Proofs.Field.Replay
import ClassUnit.Proofs.Field.Recording
import ClassUnit.Proofs.Field.NormalForm
import ClassUnit.Proofs.Class.NormalForm
import ClassUnit.Proofs.Class.Header
import ClassUnit.Proofs.Class.Log
import ClassUnit.Proofs.Class.Delivery
import ClassUnit.Proofs.Proxy.Descriptors
import ClassUnit.Proofs.Proxy.Grammar
import ClassUnit.Proofs.Proxy.Creation
import ClassUnit.Proofs.Proxy.Keys
import ClassUnit.Proofs.Proxy.Dispatch
import ClassUnit.Proofs.Proxy.Examination
import ClassUnit.Proofs.Proxy.Injection
import ClassUnit.Proofs.Proxy.PassThrough
import ClassUnit.Proofs.Proxy.Layout
import ClassUnit.Proofs.Proxy.Emission
import ClassUnit.Proofs.CommandLine.Check
import ClassUnit.Proofs.CommandLine.Proxies
import ClassUnit.Proofs.Json.Decoding
