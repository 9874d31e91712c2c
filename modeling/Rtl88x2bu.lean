import Rtl88x2bu.Rx.MgmtRuns
import Rtl88x2bu.Rx.RejectedFrames
import Rtl88x2bu.Usb.RecvUnits
import Rtl88x2bu.Tx.Reassembly
import Rtl88x2bu.Tx.AggregateLayout
import Rtl88x2bu.Tx.SleepCounts
import Rtl88x2bu.Tx.Accounting
import Rtl88x2bu.Tx.Order
import Rtl88x2bu.Tx.GroupTraffic
import Rtl88x2bu.Key.CamSlots
import Rtl88x2bu.Tx.Stations
import Rtl88x2bu.Efuse.Runs
import Rtl88x2bu.Efuse.Space
import Rtl88x2bu.Bridge.RelayTag
import Rtl88x2bu.Crypto.WepTkip
import Rtl88x2bu.Crypto.Siv
import Rtl88x2bu.Rx.ReorderTimer
import Rtl88x2bu.Bridge.NeighbourDiscovery
import Rtl88x2bu.Bridge.Dhcp
import Rtl88x2bu.Rx.DefragJoin
import Rtl88x2bu.Tx.Amsdu
import Rtl88x2bu.Ie.RsneGrammar
import Rtl88x2bu.Ie.WpaIe
import Rtl88x2bu.Ie.ParseElems
import Rtl88x2bu.Efuse.Parser
import Rtl88x2bu.Bridge.LookupOutcome
import Rtl88x2bu.Bridge.Vlan
import Rtl88x2bu.Bridge.ChainsRefine
import Rtl88x2bu.Ie.Rates
import Rtl88x2bu.Wnm.BtmReq
import Rtl88x2bu.P2p.DelAttr
import Rtl88x2bu.P2p.Negotiation
import Rtl88x2bu.Crypto.BipRuns
import Rtl88x2bu.Crypto.Aad
import Rtl88x2bu.Tx.BwBitmap
import Rtl88x2bu.Tx.Michael
import Rtl88x2bu.Crypto.Cmac
import Rtl88x2bu.Crypto.Ghash
import Rtl88x2bu.Crypto.Hmac
