import AesEcb.Provider.BuiltIn
import AesEcb.Trace

/-!
# Contexts

A context is an opened provider together with the key it imported.  It never changes; when it
is given up its key is destroyed, and then its provider.
-/

namespace AesEcb

structure Context where
  owner : Instance
  key : ImportedKey

namespace Context

def providerName (c : Context) : String := c.owner.name

def keySize (c : Context) : KeySize := c.key.size

def debug (c : Context) : String :=
  s!"AesBlockCipher \x7b provider: {Text.quoted c.providerName}, " ++
    s!"key_size: {c.keySize.debug} \x7d"

/-- What happens when the context is given up.  Its key and its provider do nothing of their own
while they are destroyed, as `Provider.foreign` has it. -/
def teardown (c : Context) : Trace :=
  [.diagnostic (.contextClosed c.providerName), .crossing (.keyDestroyed c.owner),
    .crossing (.providerDestroyed c.owner)]

end Context

end AesEcb
