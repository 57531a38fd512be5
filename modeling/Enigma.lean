import Enigma.Crypto.Bytes
import Enigma.Crypto.Cbc
import Enigma.Crypto.Padding
import Enigma.Crypto.Aes
import Enigma.Crypto.Keys
import Enigma.Crypto.Pgp
import Enigma.Database.Mock
import Enigma.Ishtm.Collection
import Enigma.Ishtm.Dclp
import Enigma.Ishtm.Progress
import Enigma.Ishtm.Database
