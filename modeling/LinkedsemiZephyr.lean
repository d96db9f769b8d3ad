import LinkedsemiZephyr.Spdm.RoundTrip
import LinkedsemiZephyr.Spdm.SecuredChannel
import LinkedsemiZephyr.Spdm.NonceReuse
import LinkedsemiZephyr.Spdm.PlaintextIsolation
import LinkedsemiZephyr.Spdm.Reconnect
import LinkedsemiZephyr.Spdm.CertificateChain
import LinkedsemiZephyr.Spdm.ChallengeTranscript
import LinkedsemiZephyr.Spdm.KeyPairInfo
import LinkedsemiZephyr.Xhci.ProducerRing
import LinkedsemiZephyr.Xhci.OwnCompletion
import LinkedsemiZephyr.Gpio.ExclusiveClaim
import LinkedsemiZephyr.Gpio.EventPoll
import LinkedsemiZephyr.Firmware.ReceiveSemaphore
import LinkedsemiZephyr.Firmware.ResponseCorrelation
import LinkedsemiZephyr.Firmware.ResponderLoop
import LinkedsemiZephyr.Spdm.Survival
import LinkedsemiZephyr.Gpio.EventFifo
import LinkedsemiZephyr.Gpio.PinConfigure
import LinkedsemiZephyr.Xhci.SharedRing
import LinkedsemiZephyr.Xhci.EventWait
import LinkedsemiZephyr.Ipmi.KcsPolling
import LinkedsemiZephyr.Http.Authentication
import LinkedsemiZephyr.Spdm.CertificateLoop
import LinkedsemiZephyr.Firmware.DerSplitters
import LinkedsemiZephyr.Gpio.CreateReport
import LinkedsemiZephyr.Gpio.Polarity
import LinkedsemiZephyr.Xhci.PortStatus
import LinkedsemiZephyr.Xhci.SetupFailure
import LinkedsemiZephyr.Xhci.ContextEntries
import LinkedsemiZephyr.Xhci.Recovery
import LinkedsemiZephyr.Http.PostFraming
import LinkedsemiZephyr.Hash.OneShot
import LinkedsemiZephyr.Spdm.GeneratedHeader
import LinkedsemiZephyr.Ipmi.IpmbExchange
import LinkedsemiZephyr.Ipmi.KcsService
import LinkedsemiZephyr.Spdm.Authentication
import LinkedsemiZephyr.Spdm.Hijack
import LinkedsemiZephyr.Spdm.TesterScript
import LinkedsemiZephyr.Shell.DynamicCommands
import LinkedsemiZephyr.Mailbox.Completion
import LinkedsemiZephyr.Crypto.HashSession
import LinkedsemiZephyr.Serial.CdcAcmEcho
import LinkedsemiZephyr.Jtag.PassingTest
