import ObjectWire.Proofs.Portable.Naming
import ObjectWire.Proofs.Service.Schema

/-!
# Definitions known to the receiver

The payload of a portable object names a class and a version, and the envelope brings a definition
for them.  A service that knows a definition for them already goes by its own, whatever the envelope
brings; only a service that knows none registers the one in the envelope and goes by that.
-/

namespace ObjectWire

namespace Frame

variable {known definition : ClassDefinition}

end Frame

namespace Service

variable {service : Service} {e : Envelope} {key : ClassKey} {rest : Bytes}
  {known definition settled : ClassDefinition} {context : PortableContext}

end Service

end ObjectWire
