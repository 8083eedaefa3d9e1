import Wireframe.Blake3
import Wireframe.Json.Printer
import Wireframe.Plan.Json

namespace Wireframe

def fingerprintText (text : String) : String := "blake3:" ++ Blake3.hashText text

-- The fingerprint of a plan is that of its JSON on one line.
def Plan.fingerprint (plan : Plan) : String := fingerprintText plan.toJson.compact

end Wireframe
